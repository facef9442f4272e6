import Mathlib.Data.List.ReduceOption
import GelCli.Foundation.Results
import GelCli.Registry.Atomic

/-!
# Validation is all or nothing

Which packages `IndexDocument::validate` recognises, the installref it prefers and the
record it makes of it, said apart from the order of its checks. An index is accepted if
every package that is recognised is complete and every preferred installref is well
formed, and the other packages do not count.
-/

namespace GelCli.Registry

open GelCli.Foundation

/-! ## Packages and their installrefs -/

inductive PackageKind where
  | server
  | cli
  | extension
deriving DecidableEq, Repr

/-- The kind by the names and the tags, in the order of `validate_package`. -/
def recognised (package : PackageData) : Option PackageKind :=
  if package.basename = "gel-server" ∨ package.basename = "edgedb-server" then some .server
  else if package.basename = "gel-cli" ∨ package.basename = "edgedb-cli" then some .cli
  else if "extension" ∈ package.tags then some .extension
  else none

section Installrefs

variable (platform : String)

def mediaType : PackageKind → Option String
  | .server => some "application/x-tar"
  | .cli => cliMediaType platform
  | .extension => some "application/zip"

/-- What the command line tool can use of a kind, the preferred encoding first. -/
def PackageKind.encodings : PackageKind → List String
  | .server => ["zstd"]
  | .cli => ["zstd", "identity"]
  | .extension => ["identity"]

def Encoded (kind : PackageKind) (encoding : String) (installref : InstallRef) : Prop :=
  mediaType platform kind = some installref.kind ∧ installref.encoding = some encoding

instance encodedDecidable (kind : PackageKind) (encoding : String) (installref : InstallRef) :
    Decidable (Encoded platform kind encoding installref) :=
  inferInstanceAs (Decidable (_ ∧ _))

/-- The first installref of the first encoding that there is. -/
def preferred (kind : PackageKind) (package : PackageData) : Option InstallRef :=
  kind.encodings.findSome? fun encoding =>
    package.installrefs.find? fun installref => Encoded platform kind encoding installref

/-- The package has an installref that can be used. -/
def Offers (kind : PackageKind) (package : PackageData) : Prop :=
  ∃ installref ∈ package.installrefs, ∃ encoding ∈ kind.encodings,
    Encoded platform kind encoding installref

/-- What is asked of a recognised package before its installrefs are looked at. -/
structure Complete (kind : PackageKind) (package : PackageData) : Prop where
  installrefs : package.installrefs ≠ []
  media : (mediaType platform kind).isSome
  tags : kind = .extension → ∀ tag ∈ ["extension", "server_slot"],
    ∃ value, package.tags.lookup tag = some value ∧ value ≠ ""

end Installrefs

/-! ## Records -/

section Records

variable (crates : Crates) (artifactBase : Source) (package : PackageData)
  (installref : InstallRef)

/-- The bytes of the digest that stands with the installref. -/
def HasDigest (hash : List UInt8) : Prop :=
  ∃ digest, installref.verification.blake2b = some digest ∧
    parseBlake2bDigest crates digest = .ok hash

def versionReads : PackageKind → Prop
  | .cli => ∃ version, crates.parseSemver package.version = .ok version
  | .server | .extension => crates.matchesBuild package.version

/-- The size is a number by its type. -/
structure WellFormed (kind : PackageKind) : Prop where
  version : versionReads crates package kind
  url : (resolveInstallrefUrl crates artifactBase installref.path).isSome
  digest : ∃ hash, HasDigest crates installref hash

/-- The record that is made of a package and one of its installrefs. -/
inductive RecordOf : PackageKind → ValidatedArtifact → Prop where
  | server {url : String} {hash : List UInt8} (hversion : crates.matchesBuild package.version)
      (hurl : resolveInstallrefUrl crates artifactBase installref.path = some url)
      (hhash : HasDigest crates installref hash) :
      RecordOf .server (.server (.server package.basename package.version package.slot)
        { name := package.basename
          version := package.version
          url := url
          size := installref.verification.size
          hash := hash
          kind := .tarZst
          slot := package.slot
          tags := package.tags })
  | cli {version url : String} {hash : List UInt8}
      (hversion : crates.parseSemver package.version = .ok version)
      (hurl : resolveInstallrefUrl crates artifactBase installref.path = some url)
      (hhash : HasDigest crates installref hash) :
      RecordOf .cli (.cli (.cli package.basename package.version)
        { version := version
          url := url
          size := installref.verification.size
          hash := hash
          compression := if installref.encoding = some "zstd" then some .zstd else none })
  | extension {extensionName serverSlot url : String} {hash : List UInt8}
      (hname : package.tags.lookup "extension" = some extensionName)
      (hslot : package.tags.lookup "server_slot" = some serverSlot)
      (hversion : crates.matchesBuild package.version)
      (hurl : resolveInstallrefUrl crates artifactBase installref.path = some url)
      (hhash : HasDigest crates installref hash) :
      RecordOf .extension
        (.extension (.extension extensionName package.version serverSlot)
          { name := extensionName
            version := package.version
            url := url
            size := installref.verification.size
            hash := hash
            kind := .zip
            slot := package.slot
            tags := package.tags })

/-- What becomes of a complete package. -/
inductive Validates (platform : String) (kind : PackageKind) : Option ValidatedArtifact → Prop where
  | skip (hnone : preferred platform kind package = none) : Validates platform kind none
  | record {installref : InstallRef} {artifact : ValidatedArtifact}
      (hsome : preferred platform kind package = some installref)
      (hrecord : RecordOf crates artifactBase package installref kind artifact) :
      Validates platform kind (some artifact)

end Records

/-! ## Installrefs that are found -/

section Selection

variable {platform : String} {kind : PackageKind} {package : PackageData} {installref : InstallRef}

theorem preferred_eq_none :
    preferred platform kind package = none ↔ ¬ Offers platform kind package := by
  rw [preferred, List.findSome?_eq_none_iff]
  simp only [List.find?_eq_none, decide_eq_true_eq]
  constructor
  · rintro h ⟨installref, hmem, encoding, hencoding, hencoded⟩
    exact h encoding hencoding installref hmem hencoded
  · intro h encoding hencoding installref hmem hencoded
    exact h ⟨installref, hmem, encoding, hencoding, hencoded⟩

theorem offers_of_preferred (h : preferred platform kind package = some installref) :
    Offers platform kind package := by
  by_contra hnot
  rw [preferred_eq_none.mpr hnot] at h
  cases h

/-- A plain executable is preferred only if there is no compressed one. -/
theorem preferred_zstd (h : preferred platform .cli package = some installref) :
    installref.encoding = some "zstd" ∨
      ∀ other ∈ package.installrefs, ¬ Encoded platform .cli "zstd" other := by
  rw [preferred, PackageKind.encodings, List.findSome?_cons] at h
  split at h
  · next found hfound =>
    cases h
    have hencoded := List.find?_some hfound
    rw [decide_eq_true_eq] at hencoded
    exact .inl hencoded.2
  · next hnone =>
    refine .inr fun other hmem hencoded => ?_
    exact absurd hencoded (by simpa using List.find?_eq_none.mp hnone other hmem)

theorem find?_encoded {type encoding : String} (htype : mediaType platform kind = some type) :
    (package.installrefs.find? fun installref => Encoded platform kind encoding installref) =
      package.installrefs.find? fun installref =>
        installref.kind = type ∧ installref.encoding = some encoding := by
  refine congrArg (List.find? · package.installrefs) (funext fun installref => ?_)
  rw [decide_eq_decide, Encoded, htype, Option.some.injEq, eq_comm (a := type)]

theorem preferred_single {type encoding : String} (htype : mediaType platform kind = some type)
    (hkind : kind.encodings = [encoding]) :
    preferred platform kind package = package.installrefs.find? fun installref =>
      installref.kind = type ∧ installref.encoding = some encoding := by
  rw [← find?_encoded htype, preferred, hkind, List.findSome?_cons, List.findSome?_nil]
  split
  · next h => exact h.symm
  · next h => exact h.symm

theorem preferred_cli {type : String} (htype : cliMediaType platform = some type) :
    preferred platform .cli package =
      (package.installrefs.find? fun installref =>
        installref.kind = type ∧ installref.encoding = some "zstd").or
      (package.installrefs.find? fun installref =>
        installref.kind = type ∧ installref.encoding = some "identity") := by
  have hmedia : mediaType platform .cli = some type := htype
  rw [← find?_encoded hmedia, ← find?_encoded hmedia, preferred, PackageKind.encodings,
    List.findSome?_cons]
  split
  · next h => rw [h, Option.some_or]
  · next h =>
    rw [h, Option.none_or, List.findSome?_cons, List.findSome?_nil]
    split
    · next h => exact h.symm
    · next h => exact h.symm

end Selection

/-! ## The checks of a package -/

section Validation

variable {crates : Crates} {indexSource artifactBase : Source} {platform : String}
  {package : PackageData} {installref : InstallRef}

theorem selectInstallref_eq_ok {wanted : InstallRef → Bool} {found : Option InstallRef} :
    selectInstallref indexSource package wanted = .ok found ↔
      package.installrefs ≠ [] ∧ package.installrefs.find? wanted = found := by
  rw [selectInstallref]
  split
  · next h =>
    rw [List.isEmpty_iff] at h
    exact ⟨fun heq => (by cases heq), fun hne => absurd h hne.1⟩
  · next h =>
    rw [List.isEmpty_iff] at h
    exact ⟨fun heq => ⟨h, Except.ok.inj heq⟩, fun hfound => congrArg Except.ok hfound.2⟩

theorem parseBuild_ok_iff {version : String} :
    parseBuild crates indexSource package = .ok version ↔
      crates.matchesBuild package.version ∧ version = package.version := by
  rw [parseBuild]
  split
  · next h => exact ⟨fun heq => ⟨h, (Except.ok.inj heq).symm⟩, fun hv => by rw [hv.2]⟩
  · next h => exact ⟨fun heq => (by cases heq), fun hv => absurd hv.1 h⟩

theorem installrefUrl_eq_ok {url : String} :
    installrefUrl crates indexSource artifactBase package installref = .ok url ↔
      resolveInstallrefUrl crates artifactBase installref.path = some url := by
  rw [installrefUrl]
  split
  · next found h => rw [h, Except.ok.injEq, Option.some.injEq]
  · next h =>
    rw [h]
    constructor
    · intro heq
      cases heq
    · intro heq
      cases heq

theorem parseInstallrefDigest_eq_ok {hash : List UInt8} :
    parseInstallrefDigest crates indexSource package installref = .ok hash ↔
      HasDigest crates installref hash := by
  rw [parseInstallrefDigest, HasDigest]
  split
  · next h =>
    rw [h]
    constructor
    · intro heq
      cases heq
    · rintro ⟨digest, hdigest, -⟩
      cases hdigest
  · next digest h =>
    rw [mapError_eq_ok, h]
    constructor
    · exact fun hok => ⟨digest, rfl, hok⟩
    · rintro ⟨digest', hdigest, hok⟩
      cases hdigest
      exact hok

theorem requiredTag_eq_ok {tag field message value : String} :
    requiredTag indexSource package tag field message = .ok value ↔
      package.tags.lookup tag = some value ∧ value ≠ "" := by
  rw [requiredTag]
  split
  · next found h =>
    obtain ⟨hlookup, hne⟩ := Option.filter_eq_some_iff.mp h
    rw [hlookup, Except.ok.injEq, Option.some.injEq]
    exact ⟨fun heq => ⟨heq, heq ▸ (by simpa using hne)⟩, fun heq => heq.1⟩
  · next h =>
    constructor
    · intro heq
      cases heq
    · rintro ⟨hlookup, hne⟩
      exact absurd hne (by simpa using Option.filter_eq_none_iff.mp h value hlookup)

theorem validateServer_eq_ok {out : Option ValidatedArtifact} :
    validateServer crates indexSource artifactBase package = .ok out ↔
      Complete platform .server package ∧
        Validates crates artifactBase package platform .server out := by
  have hpreferred : preferred platform .server package = _ := preferred_single rfl rfl
  rw [validateServer, bind_eq_ok]
  constructor
  · rintro ⟨found, hfound, h⟩
    obtain ⟨hne, hfound⟩ := selectInstallref_eq_ok.mp hfound
    refine ⟨⟨hne, rfl, fun hkind => by cases hkind⟩, ?_⟩
    cases found with
    | none =>
        cases h
        exact .skip (hpreferred.trans hfound)
    | some installref =>
        obtain ⟨version, hversion, h⟩ := bind_eq_ok.mp h
        obtain ⟨url, hurl, h⟩ := bind_eq_ok.mp h
        obtain ⟨hash, hhash, h⟩ := bind_eq_ok.mp h
        obtain ⟨hmatch, rfl⟩ := parseBuild_ok_iff.mp hversion
        cases h
        exact .record (hpreferred.trans hfound)
          (.server hmatch (installrefUrl_eq_ok.mp hurl) (parseInstallrefDigest_eq_ok.mp hhash))
  · rintro ⟨hcomplete, h⟩
    refine ⟨_, selectInstallref_eq_ok.mpr ⟨hcomplete.installrefs, hpreferred.symm⟩, ?_⟩
    cases h with
    | skip hnone =>
        rw [hnone]
        rfl
    | record hsome hrecord =>
        rw [hsome]
        obtain ⟨hversion, hurl, hhash⟩ := hrecord
        exact bind_eq_ok.mpr ⟨_, parseBuild_ok_iff.mpr ⟨hversion, rfl⟩, bind_eq_ok.mpr
          ⟨_, installrefUrl_eq_ok.mpr hurl, bind_eq_ok.mpr
          ⟨_, parseInstallrefDigest_eq_ok.mpr hhash, rfl⟩⟩⟩

theorem validateExtension_eq_ok {out : Option ValidatedArtifact} :
    validateExtension crates indexSource artifactBase package = .ok out ↔
      Complete platform .extension package ∧
        Validates crates artifactBase package platform .extension out := by
  have hpreferred : preferred platform .extension package = _ := preferred_single rfl rfl
  rw [validateExtension, bind_eq_ok]
  constructor
  · rintro ⟨extensionName, hname, h⟩
    obtain ⟨serverSlot, hslot, h⟩ := bind_eq_ok.mp h
    obtain ⟨found, hfound, h⟩ := bind_eq_ok.mp h
    obtain ⟨hne, hfound⟩ := selectInstallref_eq_ok.mp hfound
    rw [requiredTag_eq_ok] at hname hslot
    refine ⟨⟨hne, rfl, fun _ tag htag => ?_⟩, ?_⟩
    · rcases List.mem_cons.mp htag with rfl | htag
      · exact ⟨_, hname⟩
      · rw [List.mem_singleton.mp htag]
        exact ⟨_, hslot⟩
    · cases found with
      | none =>
          cases h
          exact .skip (hpreferred.trans hfound)
      | some installref =>
          obtain ⟨version, hversion, h⟩ := bind_eq_ok.mp h
          obtain ⟨url, hurl, h⟩ := bind_eq_ok.mp h
          obtain ⟨hash, hhash, h⟩ := bind_eq_ok.mp h
          obtain ⟨hmatch, rfl⟩ := parseBuild_ok_iff.mp hversion
          cases h
          exact .record (hpreferred.trans hfound) (.extension hname.1 hslot.1 hmatch
            (installrefUrl_eq_ok.mp hurl) (parseInstallrefDigest_eq_ok.mp hhash))
  · rintro ⟨hcomplete, h⟩
    obtain ⟨extensionName, hname⟩ := hcomplete.tags rfl "extension" List.mem_cons_self
    obtain ⟨serverSlot, hslot⟩ :=
      hcomplete.tags rfl "server_slot" (List.mem_cons_of_mem _ List.mem_cons_self)
    refine ⟨extensionName, requiredTag_eq_ok.mpr hname, bind_eq_ok.mpr ⟨serverSlot,
      requiredTag_eq_ok.mpr hslot, bind_eq_ok.mpr ⟨_, selectInstallref_eq_ok.mpr
      ⟨hcomplete.installrefs, hpreferred.symm⟩, ?_⟩⟩⟩
    cases h with
    | skip hnone =>
        rw [hnone]
        rfl
    | record hsome hrecord =>
        rw [hsome]
        cases hrecord with
        | extension hname' hslot' hversion hurl hhash =>
            obtain rfl := Option.some.inj (hname'.symm.trans hname.1)
            obtain rfl := Option.some.inj (hslot'.symm.trans hslot.1)
            exact bind_eq_ok.mpr ⟨_, parseBuild_ok_iff.mpr ⟨hversion, rfl⟩, bind_eq_ok.mpr
              ⟨_, installrefUrl_eq_ok.mpr hurl, bind_eq_ok.mpr
              ⟨_, parseInstallrefDigest_eq_ok.mpr hhash, rfl⟩⟩⟩

theorem validateCli_eq_ok {out : Option ValidatedArtifact} :
    validateCli crates indexSource artifactBase platform package = .ok out ↔
      Complete platform .cli package ∧
        Validates crates artifactBase package platform .cli out := by
  rw [validateCli]
  split
  · next hmedia =>
    constructor
    · intro h
      cases h
    · rintro ⟨hcomplete, -⟩
      have hsome : (cliMediaType platform).isSome := hcomplete.media
      rw [hmedia] at hsome
      cases hsome
  · next type hmedia =>
    simp only
    rw [← preferred_cli hmedia]
    have hcomplete : package.installrefs ≠ [] → Complete platform .cli package := fun hne =>
      ⟨hne, Option.isSome_iff_exists.mpr ⟨type, hmedia⟩, fun hkind => by cases hkind⟩
    cases hfound : preferred platform .cli package with
    | none =>
        simp only
        constructor
        · intro h
          split at h
          · cases h
          · next hne =>
            cases h
            exact ⟨hcomplete fun hnil => hne (List.isEmpty_iff.mpr hnil), .skip hfound⟩
        · rintro ⟨⟨hne, -, -⟩, h⟩
          rw [if_neg fun hempty => hne (List.isEmpty_iff.mp hempty)]
          cases h with
          | skip => rfl
          | record hsome => cases hfound.symm.trans hsome
    | some installref =>
        simp only
        constructor
        · intro h
          obtain ⟨version, hversion, h⟩ := bind_eq_ok.mp h
          obtain ⟨url, hurl, h⟩ := bind_eq_ok.mp h
          obtain ⟨hash, hhash, h⟩ := bind_eq_ok.mp h
          cases h
          obtain ⟨installref', hmem, -⟩ := offers_of_preferred hfound
          exact ⟨hcomplete (List.ne_nil_of_mem hmem), .record hfound
            (.cli (mapError_eq_ok.mp hversion) (installrefUrl_eq_ok.mp hurl)
              (parseInstallrefDigest_eq_ok.mp hhash))⟩
        · rintro ⟨-, h⟩
          cases h with
          | skip hnone => cases hfound.symm.trans hnone
          | record hsome hrecord =>
              obtain rfl := Option.some.inj (hfound.symm.trans hsome)
              cases hrecord with
              | cli hversion hurl hhash =>
                  exact bind_eq_ok.mpr ⟨_, mapError_eq_ok.mpr hversion, bind_eq_ok.mpr
                    ⟨_, installrefUrl_eq_ok.mpr hurl, bind_eq_ok.mpr
                    ⟨_, parseInstallrefDigest_eq_ok.mpr hhash, rfl⟩⟩⟩

theorem validatePackage_eq_ok {kind : PackageKind} (hkind : recognised package = some kind)
    {out : Option ValidatedArtifact} :
    validatePackage crates indexSource artifactBase platform package = .ok out ↔
      Complete platform kind package ∧
        Validates crates artifactBase package platform kind out := by
  rw [recognised] at hkind
  rw [validatePackage]
  split at hkind
  · next hserver =>
    cases hkind
    rw [if_pos hserver, validateServer_eq_ok]
  · next hserver =>
    rw [if_neg hserver]
    split at hkind
    · next hcli =>
      cases hkind
      rw [if_pos hcli, validateCli_eq_ok]
    · next hcli =>
      rw [if_neg hcli]
      split at hkind
      · next hextension =>
        cases hkind
        rw [if_pos hextension, validateExtension_eq_ok]
      · cases hkind

theorem validatePackage_unknown (hkind : recognised package = none) :
    validatePackage crates indexSource artifactBase platform package = .ok none := by
  rw [recognised] at hkind
  rw [validatePackage]
  split at hkind
  · cases hkind
  · next hserver =>
    split at hkind
    · cases hkind
    · next hcli =>
      split at hkind
      · cases hkind
      · next hextension => rw [if_neg hserver, if_neg hcli, if_neg hextension]

end Validation

/-! ## Records and well-formedness -/

section Packages

variable (crates : Crates) (artifactBase : Source) (platform : String)

/-- What the index has to hold for a package. -/
def Acceptable (package : PackageData) : Prop :=
  ∀ kind, recognised package = some kind → Complete platform kind package ∧
    ∀ installref, preferred platform kind package = some installref →
      WellFormed crates artifactBase package installref kind

/-- The package is recognised, and an installref of it can be used. -/
def used (package : PackageData) : Bool :=
  ((recognised package).bind fun kind => preferred platform kind package).isSome

def BuiltFrom (package : PackageData) (artifact : ValidatedArtifact) : Prop :=
  ∃ kind installref, recognised package = some kind ∧
    preferred platform kind package = some installref ∧
    RecordOf crates artifactBase package installref kind artifact

/-- Another package, or one of which no installref can be used. -/
def Ignored (package : PackageData) : Prop :=
  ∀ kind, recognised package = some kind →
    Complete platform kind package ∧ ¬ Offers platform kind package

variable {crates artifactBase platform} {indexSource : Source} {package : PackageData}

theorem wellFormed_of_record {installref : InstallRef} {kind : PackageKind}
    {artifact : ValidatedArtifact}
    (h : RecordOf crates artifactBase package installref kind artifact) :
    WellFormed crates artifactBase package installref kind := by
  cases h with
  | server hversion hurl hhash =>
      exact ⟨hversion, Option.isSome_iff_exists.mpr ⟨_, hurl⟩, _, hhash⟩
  | cli hversion hurl hhash =>
      exact ⟨⟨_, hversion⟩, Option.isSome_iff_exists.mpr ⟨_, hurl⟩, _, hhash⟩
  | extension hname hslot hversion hurl hhash =>
      exact ⟨hversion, Option.isSome_iff_exists.mpr ⟨_, hurl⟩, _, hhash⟩

theorem exists_record {installref : InstallRef} {kind : PackageKind}
    (hcomplete : Complete platform kind package)
    (h : WellFormed crates artifactBase package installref kind) :
    ∃ artifact, RecordOf crates artifactBase package installref kind artifact := by
  rcases h with ⟨hversion, hurl, hash, hhash⟩
  obtain ⟨url, hurl⟩ := Option.isSome_iff_exists.mp hurl
  cases kind with
  | server => exact ⟨_, .server hversion hurl hhash⟩
  | cli =>
      obtain ⟨version, hversion⟩ := hversion
      exact ⟨_, .cli hversion hurl hhash⟩
  | extension =>
      obtain ⟨extensionName, hname, -⟩ := hcomplete.tags rfl "extension" List.mem_cons_self
      obtain ⟨serverSlot, hslot, -⟩ :=
        hcomplete.tags rfl "server_slot" (List.mem_cons_of_mem _ List.mem_cons_self)
      exact ⟨_, .extension hname hslot hversion hurl hhash⟩

theorem exists_validatePackage_ok :
    (∃ out, validatePackage crates indexSource artifactBase platform package = .ok out) ↔
      Acceptable crates artifactBase platform package := by
  constructor
  · rintro ⟨out, h⟩ kind hkind
    obtain ⟨hcomplete, hvalidates⟩ := (validatePackage_eq_ok hkind).mp h
    refine ⟨hcomplete, fun installref hpreferred => ?_⟩
    cases hvalidates with
    | skip hnone => cases hnone.symm.trans hpreferred
    | record hsome hrecord =>
        obtain rfl := Option.some.inj (hsome.symm.trans hpreferred)
        exact wellFormed_of_record hrecord
  · intro h
    cases hkind : recognised package with
    | none => exact ⟨none, validatePackage_unknown hkind⟩
    | some kind =>
        obtain ⟨hcomplete, hwell⟩ := h kind hkind
        cases hpreferred : preferred platform kind package with
        | none => exact ⟨none, (validatePackage_eq_ok hkind).mpr ⟨hcomplete, .skip hpreferred⟩⟩
        | some installref =>
            obtain ⟨artifact, hrecord⟩ := exists_record hcomplete (hwell installref hpreferred)
            exact ⟨some artifact,
              (validatePackage_eq_ok hkind).mpr ⟨hcomplete, .record hpreferred hrecord⟩⟩

theorem validatePackage_ignored (h : Ignored platform package) :
    validatePackage crates indexSource artifactBase platform package = .ok none := by
  cases hkind : recognised package with
  | none => exact validatePackage_unknown hkind
  | some kind =>
      obtain ⟨hcomplete, hnot⟩ := h kind hkind
      exact (validatePackage_eq_ok hkind).mpr ⟨hcomplete, .skip (preferred_eq_none.mpr hnot)⟩

/-- A package that is used gives a record, the others give none. -/
theorem validatePackage_out {out : Option ValidatedArtifact}
    (h : validatePackage crates indexSource artifactBase platform package = .ok out) :
    (used platform package = false ∧ out = none) ∨
      used platform package = true ∧
        ∃ artifact, out = some artifact ∧ BuiltFrom crates artifactBase platform package artifact := by
  cases hkind : recognised package with
  | none =>
      rw [validatePackage_unknown hkind] at h
      cases h
      exact .inl ⟨by rw [used, hkind]; rfl, rfl⟩
  | some kind =>
      obtain ⟨-, hvalidates⟩ := (validatePackage_eq_ok hkind).mp h
      have hused : used platform package = (preferred platform kind package).isSome := by
        rw [used, hkind, Option.bind_some]
      cases hvalidates with
      | skip hnone => exact .inl ⟨by rw [hused, hnone]; rfl, rfl⟩
      | record hsome hrecord =>
          exact .inr ⟨by rw [hused, hsome]; rfl, _, rfl, kind, _, hkind, hsome, hrecord⟩

end Packages

/-! ## Documents -/

section Documents

variable {crates : Crates} {indexSource artifactBase : Source} {platform : String}
  {document : IndexDocument}

theorem validate_eq_ok {artifacts : List ValidatedArtifact} :
    document.validate crates indexSource artifactBase platform = .ok artifacts ↔
      ∃ validated, document.packages.mapM
          (validatePackage crates indexSource artifactBase platform) = .ok validated ∧
        validated.reduceOption = artifacts := by
  rw [IndexDocument.validate, bind_eq_ok]
  refine exists_congr fun validated => and_congr_right fun _ => ?_
  exact ⟨fun h => Except.ok.inj h, fun h => congrArg Except.ok h⟩

/-- An index is accepted as a whole or not at all. -/
theorem exists_validate_ok :
    (∃ artifacts, document.validate crates indexSource artifactBase platform = .ok artifacts) ↔
      ∀ package ∈ document.packages, Acceptable crates artifactBase platform package := by
  have hpackage : ∀ package, Acceptable crates artifactBase platform package ↔
      ∃ out, validatePackage crates indexSource artifactBase platform package = .ok out :=
    fun package => exists_validatePackage_ok.symm
  simp only [hpackage]
  rw [← exists_mapM_ok]
  constructor
  · rintro ⟨artifacts, h⟩
    obtain ⟨validated, hvalidated, -⟩ := validate_eq_ok.mp h
    exact ⟨validated, hvalidated⟩
  · rintro ⟨validated, hvalidated⟩
    exact ⟨_, validate_eq_ok.mpr ⟨validated, hvalidated, rfl⟩⟩

/-- One record for each package that is used, in the order of the document. -/
theorem builtFrom_of_validated {packages : List PackageData}
    {validated : List (Option ValidatedArtifact)}
    (h : List.Forall₂ (fun package out =>
      validatePackage crates indexSource artifactBase platform package = .ok out)
      packages validated) :
    List.Forall₂ (BuiltFrom crates artifactBase platform) (packages.filter (used platform))
      validated.reduceOption := by
  induction h with
  | nil => exact .nil
  | cons hout hrest ih =>
      rcases validatePackage_out hout with ⟨hused, rfl⟩ | ⟨hused, artifact, rfl, hbuilt⟩
      · rw [List.filter_cons_of_neg (by simp [hused]), List.reduceOption_cons_of_none]
        exact ih
      · rw [List.filter_cons_of_pos hused, List.reduceOption_cons_of_some]
        exact .cons hbuilt ih

theorem HasDigest.unique {installref : InstallRef} {hash hash' : List UInt8}
    (h : HasDigest crates installref hash) (h' : HasDigest crates installref hash') :
    hash = hash' := by
  obtain ⟨digest, hdigest, hparse⟩ := h
  obtain ⟨digest', hdigest', hparse'⟩ := h'
  obtain rfl := Option.some.inj (hdigest.symm.trans hdigest')
  exact Except.ok.inj (hparse.symm.trans hparse')

theorem RecordOf.unique {package : PackageData} {installref : InstallRef} {kind : PackageKind}
    {artifact artifact' : ValidatedArtifact}
    (h : RecordOf crates artifactBase package installref kind artifact)
    (h' : RecordOf crates artifactBase package installref kind artifact') :
    artifact = artifact' := by
  cases h with
  | server hversion hurl hhash =>
      cases h' with
      | server hversion' hurl' hhash' =>
          obtain rfl := Option.some.inj (hurl.symm.trans hurl')
          rw [hhash.unique hhash']
  | cli hversion hurl hhash =>
      cases h' with
      | cli hversion' hurl' hhash' =>
          obtain rfl := Except.ok.inj (hversion.symm.trans hversion')
          obtain rfl := Option.some.inj (hurl.symm.trans hurl')
          rw [hhash.unique hhash']
  | extension hname hslot hversion hurl hhash =>
      cases h' with
      | extension hname' hslot' hversion' hurl' hhash' =>
          obtain rfl := Option.some.inj (hname.symm.trans hname')
          obtain rfl := Option.some.inj (hslot.symm.trans hslot')
          obtain rfl := Option.some.inj (hurl.symm.trans hurl')
          rw [hhash.unique hhash']

/-- The artifacts of an accepted index are those that its packages give. -/
theorem mem_validated_iff {artifacts : List ValidatedArtifact} {artifact : ValidatedArtifact}
    (h : document.validate crates indexSource artifactBase platform = .ok artifacts) :
    artifact ∈ artifacts ↔
      ∃ package ∈ document.packages, BuiltFrom crates artifactBase platform package artifact := by
  obtain ⟨validated, hvalidated, rfl⟩ := validate_eq_ok.mp h
  have hbuilt := builtFrom_of_validated (mapM_eq_ok.mp hvalidated)
  constructor
  · intro hmem
    obtain ⟨package, hpackage, hartifact⟩ := exists_mem_of_forall₂ hbuilt.flip hmem
    exact ⟨package, List.mem_of_mem_filter hpackage, hartifact⟩
  · rintro ⟨package, hpackage, hartifact⟩
    obtain ⟨kind, installref, hkind, hpreferred, hrecord⟩ := hartifact
    have hused : used platform package := by
      rw [used, hkind, Option.bind_some, hpreferred]
      rfl
    obtain ⟨artifact', hmem, kind', installref', hkind', hpreferred', hrecord'⟩ :=
      exists_mem_of_forall₂ hbuilt (List.mem_filter.mpr ⟨hpackage, hused⟩)
    obtain rfl := Option.some.inj (hkind.symm.trans hkind')
    obtain rfl := Option.some.inj (hpreferred.symm.trans hpreferred')
    rw [hrecord.unique hrecord']
    exact hmem

/-- What is ignored may as well not be there. -/
theorem validate_insert {before after : List PackageData} {package : PackageData}
    (h : Ignored platform package) :
    IndexDocument.validate crates ⟨before ++ package :: after⟩ indexSource artifactBase platform =
      IndexDocument.validate crates ⟨before ++ after⟩ indexSource artifactBase platform := by
  simp only [IndexDocument.validate, List.mapM_append, List.mapM_cons, validatePackage_ignored h,
    bind_assoc, pure_bind]
  refine congrArg (_ >>= ·) (funext fun validated => ?_)
  show (do
    let rest ← after.mapM (validatePackage crates indexSource artifactBase platform)
    pure (validated ++ none :: rest).reduceOption) = _
  simp only [List.reduceOption_append, List.reduceOption_cons_of_none]

/-- What the validation of an index owes to its packages. -/
structure AllOrNothing (crates : Crates) (indexSource artifactBase : Source) (platform : String)
    (document : IndexDocument) : Prop where
  accepts : (∃ artifacts,
      document.validate crates indexSource artifactBase platform = .ok artifacts) ↔
    ∀ package ∈ document.packages, Acceptable crates artifactBase platform package
  records : ∀ artifacts,
    document.validate crates indexSource artifactBase platform = .ok artifacts →
      List.Forall₂ (BuiltFrom crates artifactBase platform)
        (document.packages.filter (used platform)) artifacts
  /-- Also the error, if there is one, stays the same. -/
  ignores : ∀ before package after, document.packages = before ++ package :: after →
    Ignored platform package →
      document.validate crates indexSource artifactBase platform =
        IndexDocument.validate crates ⟨before ++ after⟩ indexSource artifactBase platform

/-- **An index is accepted if and only if its recognised packages are complete and what
they offer is well formed, with one record for each package that offers something.** -/
theorem validate_allOrNothing (crates : Crates) (indexSource artifactBase : Source)
    (platform : String) (document : IndexDocument) :
    AllOrNothing crates indexSource artifactBase platform document where
  accepts := exists_validate_ok
  records := by
    intro artifacts h
    obtain ⟨validated, hvalidated, rfl⟩ := validate_eq_ok.mp h
    exact builtFrom_of_validated (mapM_eq_ok.mp hvalidated)
  ignores := by
    intro before package after hdocument hignored
    rw [← validate_insert hignored, ← hdocument]

end Documents

/-- A server package that offers nothing. -/
def bareServer : PackageData := ⟨"gel-server", "7.0+abcdef0", [], "7", ∅⟩

/-- It has no installref that is not well formed, and the index is rejected. -/
theorem not_accepts_bareServer :
    ¬ ((∃ artifacts, IndexDocument.validate missingIndex.crates ⟨[bareServer]⟩
          (.file "index.json") (.file "index.json") "x86_64-unknown-linux-musl" = .ok artifacts) ↔
        ∀ package ∈ [bareServer], ∀ kind installref, recognised package = some kind →
          preferred "x86_64-unknown-linux-musl" kind package = some installref →
            WellFormed missingIndex.crates (.file "index.json") package installref kind) := by
  intro h
  obtain ⟨artifacts, hartifacts⟩ := h.mpr fun package hpackage kind installref _ hpreferred => by
    rw [List.mem_singleton.mp hpackage] at hpreferred
    obtain ⟨installref', hmem, -⟩ := offers_of_preferred hpreferred
    cases hmem
  have haccepts := exists_validate_ok.mp ⟨artifacts, hartifacts⟩ bareServer List.mem_cons_self
    .server rfl
  exact haccepts.1.installrefs rfl

/-! ## Catalogues -/

section Catalogues

variable {loader : Loader} {channel : Channel} {platform : String} {sources : List RegistrySource}
  {load : CatalogLoad}

theorem composed_of_assemble {outcomes : List ConfiguredSourceOutcome}
    (h : assemble outcomes = some (.ok load)) :
    ∃ c, Composed (healthyRecords outcomes) c ∧ load.artifacts = c.retained := by
  obtain ⟨a, ha, hassembled⟩ := assemble_eq outcomes
  rw [ha, Option.some.injEq, Assembly.finish] at h
  split at h
  · cases h
  · cases h
    exact ⟨a.composition, hassembled.composed, rfl⟩

/-- An artifact of the catalogue is a record of a healthy source. -/
theorem record_of_assemble {outcomes : List ConfiguredSourceOutcome}
    (h : assemble outcomes = some (.ok load)) {artifact : ValidatedArtifact}
    (hmem : artifact ∈ load.artifacts) : ∃ source, (source, artifact) ∈ healthyRecords outcomes := by
  obtain ⟨c, hcomposed, hretained⟩ := composed_of_assemble h
  obtain ⟨⟨source, hfirst⟩, -⟩ := hcomposed.mem_retained (hretained ▸ hmem)
  exact ⟨source, (firstRecord_identity hfirst).1⟩

theorem nodup_of_load (h : Load loader channel platform sources (some (.ok load))) :
    (load.artifacts.map ValidatedArtifact.identity).Nodup := by
  obtain ⟨c, hcomposed, hretained⟩ := composed_of_assemble (load_iff.mp h).symm
  rw [hretained]
  exact hcomposed.nodup.sublist (List.filter_sublist.map _)

theorem validated_of_records {input : SelectedIndexInput} {source : Source}
    {artifact : ValidatedArtifact}
    (h : (source, artifact) ∈ (loadAndValidateIndex loader platform input).records) :
    ∃ document artifacts, IndexDocument.validate loader.crates document input.indexSource
      input.artifactBase platform = .ok artifacts ∧ artifact ∈ artifacts := by
  rw [loadAndValidateIndex] at h
  split at h
  · cases h
  · split at h
    · cases h
    · next document _ =>
      split at h
      · cases h
      · next artifacts hvalidate =>
        obtain ⟨artifact', hmem, heq⟩ := List.mem_map.mp h
        cases heq
        exact ⟨document, artifacts, hvalidate, hmem⟩

theorem records_sourceOutcome {input : Nat × RegistrySource} {source : Source}
    {artifact : ValidatedArtifact}
    (h : (source, artifact) ∈ (sourceOutcome loader channel platform input).records) :
    ∃ index : SelectedIndexInput,
      (source, artifact) ∈ (loadAndValidateIndex loader platform index).records := by
  rw [sourceOutcome] at h
  split at h
  · split at h
    · next failure _ =>
      cases failure <;> cases h
    · obtain ⟨outcome, houtcome, hrecord⟩ := List.mem_flatMap.mp h
      obtain ⟨index, -, rfl⟩ := List.mem_map.mp houtcome
      exact ⟨index, hrecord⟩
  · cases h
  · cases h
/-- What a loaded catalogue holds was built from the packages of validated indexes. -/
theorem builtFrom_of_load (h : Load loader channel platform sources (some (.ok load)))
    {artifact : ValidatedArtifact} (hmem : artifact ∈ load.artifacts) :
    ∃ artifactBase package, BuiltFrom loader.crates artifactBase platform package artifact := by
  obtain ⟨source, hrecord⟩ := record_of_assemble (load_iff.mp h).symm hmem
  obtain ⟨outcome, houtcome, hrecord⟩ := List.mem_flatMap.mp hrecord
  obtain ⟨input, -, rfl⟩ := List.mem_map.mp houtcome
  obtain ⟨index, hrecord⟩ := records_sourceOutcome hrecord
  obtain ⟨document, artifacts, hvalidate, hartifact⟩ := validated_of_records hrecord
  obtain ⟨validated, hvalidated, rfl⟩ := validate_eq_ok.mp hvalidate
  have hbuilt := builtFrom_of_validated (mapM_eq_ok.mp hvalidated)
  obtain ⟨i, hi, rfl⟩ := List.getElem_of_mem hartifact
  exact ⟨index.artifactBase, _, hbuilt.get (by rwa [hbuilt.length_eq]) hi⟩

end Catalogues

end GelCli.Registry
