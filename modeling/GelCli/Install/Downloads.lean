import GelCli.Foundation.PathComponents
import GelCli.Versions.Accepted

/-!
# Where downloads are written

The files of the cache that server and extension packages are downloaded to:
`ServerPackage::cache_file_name`, `extension_cache_file_name` and the two functions
`download_package`. A name is put together from what the index says of the package.
-/

namespace GelCli.Install

open GelCli.Foundation GelCli.Registry GelCli.Versions

/-! ## Digests in names -/

/-- `hex::encode` -/
def hexEncode (bytes : List UInt8) : Text :=
  bytes.flatMap fun byte => [Nat.digitChar (byte.toNat / 16), Nat.digitChar (byte.toNat % 16)]

/-- `Blake2bDigest::short` -/
def short (hash : List UInt8) : Text := (hexEncode hash).take 7

/-- A text with spaces behind it, as `{:7}` prints it for the width 7. -/
def padTo (width : Nat) (t : Text) : Text := t ++ List.replicate (width - t.length) ' '

def isUnreserved (c : Char) : Bool := c.isAlphanum ∨ c ∈ ['-', '.', '_', '~']

/-- `urlencoding::encode` -/
def urlEncode (t : Text) : Text :=
  t.flatMap fun c =>
    if isUnreserved c then [c]
    else (Text.utf8 [c]).flatMap fun byte =>
      ['%', (Nat.digitChar (byte.toNat / 16)).toUpper, (Nat.digitChar (byte.toNat % 16)).toUpper]

theorem digitChar_inj {m n : Nat} (hm : m < 16) (hn : n < 16)
    (h : Nat.digitChar m = Nat.digitChar n) : m = n := by
  have hall : ∀ m n : Fin 16, Nat.digitChar m = Nat.digitChar n → m = n := by decide
  exact congrArg Fin.val (hall ⟨m, hm⟩ ⟨n, hn⟩ h)

/-- What holds of the sixteen digits holds of the characters of a digest. -/
theorem hexEncode_forall {p : Char → Bool} (hp : ∀ n : Fin 16, p (Nat.digitChar n))
    (hash : List UInt8) : ∀ c ∈ hexEncode hash, p c := by
  intro c h
  obtain ⟨byte, -, hc⟩ := List.mem_flatMap.mp h
  have hlt : byte.toNat < 256 := byte.toNat_lt
  rcases List.mem_cons.mp hc with rfl | hc
  · exact hp ⟨byte.toNat / 16, by omega⟩
  · rw [List.mem_singleton.mp hc]
    exact hp ⟨byte.toNat % 16, by omega⟩

theorem notMem_hexEncode {c : Char} (hc : ∀ n : Fin 16, Nat.digitChar n ≠ c)
    (hash : List UInt8) : c ∉ hexEncode hash := by
  intro h
  have hne := hexEncode_forall (p := fun d => decide (d ≠ c))
    (fun n => decide_eq_true (hc n)) hash c h
  exact absurd rfl (of_decide_eq_true hne)

theorem hexEncode_injective : Function.Injective hexEncode := by
  intro a b h
  induction a generalizing b with
  | nil =>
      cases b with
      | nil => rfl
      | cons byte b => cases h
  | cons byte a ih =>
      cases b with
      | nil => cases h
      | cons byte' b =>
          have hlt : byte.toNat < 256 := byte.toNat_lt
          have hlt' : byte'.toNat < 256 := byte'.toNat_lt
          rw [hexEncode, hexEncode, List.flatMap_cons, List.flatMap_cons] at h
          simp only [List.cons_append, List.nil_append, List.cons.injEq] at h
          obtain ⟨hhigh, hlow, hrest⟩ := h
          have hhigh := digitChar_inj (by omega) (by omega) hhigh
          have hlow := digitChar_inj (by omega) (by omega) hlow
          have hbyte : byte = byte' := UInt8.toNat_inj.mp (by omega)
          rw [hbyte, ih hrest]

theorem urlEncode_of_unreserved {t : Text} (h : ∀ c ∈ t, isUnreserved c) : urlEncode t = t := by
  induction t with
  | nil => rfl
  | cons c t ih =>
      rw [urlEncode, List.flatMap_cons, if_pos (h c List.mem_cons_self)]
      exact congrArg (c :: ·) (ih fun c hc => h c (List.mem_cons_of_mem _ hc))

/-- A digest is not changed by the encoding for addresses. -/
theorem urlEncode_hexEncode (hash : List UInt8) : urlEncode (hexEncode hash) = hexEncode hash :=
  urlEncode_of_unreserved (hexEncode_forall (by decide) hash)

theorem padTo_inj {width : Nat} {a b : Text} (ha : ' ' ∉ a) (hb : ' ' ∉ b)
    (h : padTo width a = padTo width b) : a = b := by
  have htake : ∀ t : Text, ' ' ∉ t → (padTo width t).takeWhile (· ≠ ' ') = t := by
    intro t ht
    rw [padTo, List.takeWhile_append_of_pos]
    · rw [List.takeWhile_replicate]
      simp
    · intro c hc
      refine decide_eq_true ?_
      rintro rfl
      exact ht hc
  rw [← htake a ha, h, htake b hb]

/-! ## Names of cache files -/

/-- `PackageType::as_ext` -/
def asExt : PackageType → Text
  | .tarZst => ".tar.zst".toList
  | .zip => ".zip".toList

/-- `ServerPackage::cache_file_name` -/
def cacheFileName (pkg : ServerPackage) : Text :=
  "edgedb-server_".toList ++ pkg.version.toList ++ '_' ::
    (padTo 7 (short pkg.hash) ++ asExt pkg.kind)

def extensionCacheFileName (pkg : ExtensionPackage) : Text :=
  pkg.name.toList ++ '_' :: pkg.version.toList ++ '_' ::
    (urlEncode (hexEncode pkg.hash) ++ ".zip".toList)

def downloadDir (cacheDir : Text) : Text := joinPath cacheDir "downloads".toList

structure Download where
  hash : List UInt8
  cachePath : Text

/-- `download_package` of `server/install.rs` and of `extension.rs`: the digest that is
asked for, and the file that is created. -/
def downloadPackage (cacheDir : Text) : ValidatedArtifact → Option Download
  | .server _ pkg => some ⟨pkg.hash, joinPath (downloadDir cacheDir) (cacheFileName pkg)⟩
  | .extension _ pkg =>
      some ⟨pkg.hash, joinPath (downloadDir cacheDir) (extensionCacheFileName pkg)⟩
  | .cli _ _ => none

/-! ## What a name is made of -/

section Names

variable {d : Digits}

/-- A character that the pattern of build versions has no place for. -/
theorem notMem_build {c : Char} {t : Text} (h : (buildRegex d).isMatch t) (hascii : c.toNat < 128)
    (hdigit : c.isDigit = false) (hhex : hexDigit c = false) (hlocal : c ∉ "local".toList)
    (hstage : ∀ stage : Stage, c ∉ stage.name) (hsign : c ∉ ['.', '-', '+']) : c ∉ t := by
  obtain ⟨p, hp, rfl⟩ := isMatch_build.mp h
  have hnumber : ∀ n : Text, Number d n → c ∉ n := fun n hn hc =>
    Digits.not_isDigit hascii hdigit (hn.2 c hc)
  obtain ⟨hdot, hminus, hplus⟩ : c ≠ '.' ∧ c ≠ '-' ∧ c ≠ '+' := by
    simpa using hsign
  have hpatch : c ∉ BuildParts.patchText p.patch := by
    cases hpatch : p.patch with
    | none => exact List.not_mem_nil
    | some n =>
        intro hc
        rcases List.mem_cons.mp hc with hc | hc
        · exact hdot hc
        · exact hnumber n (hp.patch n hpatch) hc
  have hpre : c ∉ BuildParts.preText p.pre := by
    cases hpre : p.pre with
    | none => exact List.not_mem_nil
    | some x =>
        intro hc
        rcases List.mem_cons.mp hc with hc | hc
        · exact hminus hc
        · rcases List.mem_append.mp hc with hc | hc
          · exact hstage x.1 hc
          · rcases List.mem_cons.mp hc with hc | hc
            · exact hdot hc
            · exact hnumber x.2 (hp.pre x hpre) hc
  have hhash : c ∉ p.hash := by
    intro hc
    rcases hp.hash with ⟨-, hall⟩ | hword
    · rw [hall c hc] at hhex
      cases hhex
    · rw [hword] at hc
      exact hlocal hc
  simp only [BuildParts.text, BuildParts.behind, List.mem_append, List.mem_cons, not_or]
  exact ⟨hnumber _ hp.major, hdot, hnumber _ hp.minor, hpatch, hpre, hplus, hhash⟩

theorem noSlash_version {t : Text} (h : (buildRegex d).isMatch t) : '/' ∉ t :=
  notMem_build h (by decide) (by decide) (by decide) (by decide)
    (fun stage => by cases stage <;> decide) (by decide)

theorem notMem_short {c : Char} (hc : ∀ n : Fin 16, Nat.digitChar n ≠ c) (hash : List UInt8) :
    c ∉ short hash := fun h => notMem_hexEncode hc hash (List.mem_of_mem_take h)

/-- What stands behind the last underscore of a server's file. -/
theorem notMem_serverTail {c : Char} (hc : ∀ n : Fin 16, Nat.digitChar n ≠ c) (hspace : c ≠ ' ')
    (hext : c ∉ ".tar.zst".toList) (hash : List UInt8) :
    c ∉ padTo 7 (short hash) ++ asExt .tarZst := by
  intro h
  rcases List.mem_append.mp h with h | h
  · rcases List.mem_append.mp h with h | h
    · exact notMem_short hc hash h
    · exact hspace (List.eq_of_mem_replicate h)
  · exact hext h

theorem notMem_extensionTail {c : Char} (hc : ∀ n : Fin 16, Nat.digitChar n ≠ c)
    (hext : c ∉ ".zip".toList) (hash : List UInt8) :
    c ∉ urlEncode (hexEncode hash) ++ ".zip".toList := by
  rw [urlEncode_hexEncode]
  intro h
  rcases List.mem_append.mp h with h | h
  · exact notMem_hexEncode hc hash h
  · exact hext h

/-- A name that is more than dots. -/
theorem plain_of_underscore {name : Text} (h : '_' ∈ name) (hslash : '/' ∉ name) : Plain name where
  nonempty := List.ne_nil_of_mem h
  noSlash := hslash
  notDot := by
    rintro rfl
    exact absurd h (by decide)
  notParent := by
    rintro rfl
    exact absurd h (by decide)

variable {pkg other : TaggedPackage}

theorem noSlash_cacheFileName (hversion : (buildRegex d).isMatch pkg.version.toList)
    (hkind : pkg.kind = .tarZst) : '/' ∉ cacheFileName pkg := by
  unfold cacheFileName
  rw [hkind]
  intro h
  rcases List.mem_append.mp h with h | h
  · rcases List.mem_append.mp h with h | h
    · exact absurd h (by decide)
    · exact noSlash_version hversion h
  · rcases List.mem_cons.mp h with h | h
    · exact absurd h (by decide)
    · exact notMem_serverTail (by decide) (by decide) (by decide) _ h

theorem plain_cacheFileName (hversion : (buildRegex d).isMatch pkg.version.toList)
    (hkind : pkg.kind = .tarZst) : Plain (cacheFileName pkg) :=
  plain_of_underscore (List.mem_append_right _ List.mem_cons_self)
    (noSlash_cacheFileName hversion hkind)

/-- The files of servers differ in the version and in seven characters of the digest. -/
theorem cacheFileName_eq_iff (hkind : pkg.kind = .tarZst) (hkind' : other.kind = .tarZst) :
    cacheFileName pkg = cacheFileName other ↔
      pkg.version = other.version ∧ short pkg.hash = short other.hash := by
  unfold cacheFileName
  rw [hkind, hkind']
  constructor
  · intro h
    obtain ⟨hfront, htail⟩ := Text.append_cons_inj_last
      (notMem_serverTail (by decide) (by decide) (by decide) pkg.hash)
      (notMem_serverTail (by decide) (by decide) (by decide) other.hash) h
    exact ⟨String.toList_inj.mp (List.append_cancel_left hfront),
      padTo_inj (notMem_short (by decide) _) (notMem_short (by decide) _)
        (List.append_cancel_right htail)⟩
  · rintro ⟨hversion, hshort⟩
    rw [hversion, hshort]

/-- What stands behind the name of an extension in its file. -/
def extensionTail (pkg : ExtensionPackage) : Text :=
  '_' :: pkg.version.toList ++ '_' :: (urlEncode (hexEncode pkg.hash) ++ ".zip".toList)

theorem extensionCacheFileName_eq (pkg : ExtensionPackage) :
    extensionCacheFileName pkg = pkg.name.toList ++ extensionTail pkg := List.append_assoc _ _ _

theorem noSlash_extensionTail (hversion : (buildRegex d).isMatch pkg.version.toList) :
    '/' ∉ extensionTail pkg := by
  intro h
  rcases List.mem_append.mp h with h | h
  · rcases List.mem_cons.mp h with h | h
    · exact absurd h (by decide)
    · exact noSlash_version hversion h
  · rcases List.mem_cons.mp h with h | h
    · exact absurd h (by decide)
    · exact notMem_extensionTail (by decide) (by decide) _ h

theorem plain_append_extensionTail {name : Text} (hname : '/' ∉ name)
    (hversion : (buildRegex d).isMatch pkg.version.toList) :
    Plain (name ++ extensionTail pkg) := by
  refine plain_of_underscore (List.mem_append_right _ List.mem_cons_self) fun h => ?_
  rcases List.mem_append.mp h with h | h
  · exact hname h
  · exact noSlash_extensionTail hversion h

/-- The whole digest stands behind the last underscore. -/
theorem extensionTail_inj {name name' : Text}
    (h : name ++ extensionTail pkg = name' ++ extensionTail other) : pkg.hash = other.hash := by
  rw [extensionTail, extensionTail, ← List.append_assoc, ← List.append_assoc] at h
  obtain ⟨-, htail⟩ := Text.append_cons_inj_last
    (notMem_extensionTail (by decide) (by decide) pkg.hash)
    (notMem_extensionTail (by decide) (by decide) other.hash) h
  have hhash := List.append_cancel_right htail
  rw [urlEncode_hexEncode, urlEncode_hexEncode] at hhash
  exact hexEncode_injective hhash

/-- The last character tells the two kinds apart. -/
theorem cacheFileName_ne {name : Text} (hkind : pkg.kind = .tarZst) :
    cacheFileName pkg ≠ name ++ extensionTail other := by
  intro h
  have hlast : (cacheFileName pkg).getLast? = some 't' := by
    unfold cacheFileName
    rw [hkind, List.getLast?_append_of_ne_nil _ (List.cons_ne_nil _ _), ← List.cons_append,
      List.getLast?_append_of_ne_nil _ (by decide)]
    rfl
  have hlast' : (name ++ extensionTail other).getLast? = some 'p' := by
    unfold extensionTail
    rw [← List.append_assoc, List.getLast?_append_of_ne_nil _ (List.cons_ne_nil _ _),
      ← List.cons_append, List.getLast?_append_of_ne_nil _ (by decide)]
    rfl
  rw [h, hlast'] at hlast
  cases hlast

end Names

/-! ## Downloads of an index -/

section Index

/-- The path is that of an entry of the directory. -/
def IsChild (dir path : Text) : Prop :=
  ∃ name, components path = components dir ++ [.normal name]

/-- What an index must not choose: another directory, or one file for two contents. -/
structure Contained (cacheDir : Text) (artifacts : List ValidatedArtifact) : Prop where
  inside : ∀ a ∈ artifacts, ∀ d, downloadPackage cacheDir a = some d →
    IsChild (downloadDir cacheDir) d.cachePath
  apart : ∀ a ∈ artifacts, ∀ b ∈ artifacts, ∀ d e, downloadPackage cacheDir a = some d →
    downloadPackage cacheDir b = some e → d.hash ≠ e.hash →
    components d.cachePath ≠ components e.cachePath

/-- The tags of extensions lead to no other directory, and among the servers of one version
seven characters tell the digests apart. -/
structure Harmless (crates : Crates) (platform : String) (cacheDir : Text)
    (document : IndexDocument) : Prop where
  tags : ∀ package ∈ document.packages, recognised package = some .extension →
    used platform package → ∀ name, package.tags.lookup "extension" = some name →
      components (joinPath (downloadDir cacheDir) (directoryPart name.toList)) =
        components (downloadDir cacheDir)
  digests : ∀ p ∈ document.packages, ∀ q ∈ document.packages,
    recognised p = some .server → recognised q = some .server → ∀ i j,
      preferred platform .server p = some i → preferred platform .server q = some j → ∀ a b,
        HasDigest crates i a → HasDigest crates j b → p.version = q.version →
          short a = short b → a = b

theorem downloadDir_ne_nil (cacheDir : Text) : downloadDir cacheDir ≠ [] := by
  have hne : "downloads".toList ≠ [] := by decide
  unfold downloadDir joinPath
  split
  · exact hne
  · split
    · exact List.append_ne_nil_of_right_ne_nil _ hne
    · exact List.append_ne_nil_of_right_ne_nil _ (List.cons_ne_nil _ _)

variable {d : Digits} {cacheDir : Text}

/-- A server's file stands in the directory itself. -/
theorem components_server {pkg : ServerPackage}
    (hversion : (buildRegex d).isMatch pkg.version.toList) (hkind : pkg.kind = .tarZst) :
    components (joinPath (downloadDir cacheDir) (cacheFileName pkg)) =
      components (downloadDir cacheDir) ++ [.normal (cacheFileName pkg)] := by
  have hslash := noSlash_cacheFileName hversion hkind
  have hdir := directoryPart_of_noSlash hslash
  have hname : namePart (cacheFileName pkg) = cacheFileName pkg := by
    have happend := directoryPart_append_namePart (cacheFileName pkg)
    rwa [hdir, List.nil_append] at happend
  rw [components_joinPath (downloadDir_ne_nil cacheDir)
    (hname.symm ▸ plain_cacheFileName hversion hkind), hdir, hname, components_joinPath_nil]

/-- An extension's file stands where the directories in its tag lead. -/
theorem components_extension {pkg : ExtensionPackage}
    (hversion : (buildRegex d).isMatch pkg.version.toList) :
    components (joinPath (downloadDir cacheDir) (extensionCacheFileName pkg)) =
      components (joinPath (downloadDir cacheDir) (directoryPart pkg.name.toList)) ++
        [.normal (namePart pkg.name.toList ++ extensionTail pkg)] := by
  have hslash := noSlash_extensionTail hversion
  rw [extensionCacheFileName_eq]
  have hname : namePart (pkg.name.toList ++ extensionTail pkg) =
      namePart pkg.name.toList ++ extensionTail pkg := namePart_append hslash
  rw [components_joinPath (downloadDir_ne_nil cacheDir)
    (hname.symm ▸ plain_append_extensionTail (noSlash_namePart _) hversion), hname,
    directoryPart_append hslash]

/-- The name of the file alone, with what a tag has in front of it left out. -/
def fileName : ValidatedArtifact → Text
  | .server _ pkg => cacheFileName pkg
  | .extension _ pkg => namePart pkg.name.toList ++ extensionTail pkg
  | .cli _ _ => []

variable {crates : Crates} {indexSource artifactBase : Source} {platform : String}
  {document : IndexDocument} {artifacts : List ValidatedArtifact}

theorem of_mem_server {identity : ArtifactIdentity} {pkg : ServerPackage}
    (h : document.validate (buildCrates d crates) indexSource artifactBase platform = .ok artifacts)
    (hmem : .server identity pkg ∈ artifacts) :
    (buildRegex d).isMatch pkg.version.toList ∧ pkg.kind = .tarZst ∧
      ∃ package ∈ document.packages, recognised package = some .server ∧
        package.version = pkg.version ∧ ∃ installref,
          preferred platform .server package = some installref ∧
          HasDigest (buildCrates d crates) installref pkg.hash := by
  obtain ⟨package, hpackage, kind, installref, hkind, hpreferred, hrecord⟩ :=
    (mem_validated_iff h).mp hmem
  cases hrecord with
  | server hversion hurl hhash =>
      exact ⟨hversion, rfl, package, hpackage, hkind, rfl, installref, hpreferred, hhash⟩

theorem of_mem_extension {identity : ArtifactIdentity} {pkg : ExtensionPackage}
    (h : document.validate (buildCrates d crates) indexSource artifactBase platform = .ok artifacts)
    (hmem : .extension identity pkg ∈ artifacts) :
    (buildRegex d).isMatch pkg.version.toList ∧
      ∃ package ∈ document.packages, recognised package = some .extension ∧
        used platform package ∧ package.tags.lookup "extension" = some pkg.name := by
  obtain ⟨package, hpackage, kind, installref, hkind, hpreferred, hrecord⟩ :=
    (mem_validated_iff h).mp hmem
  cases hrecord with
  | extension hname hslot hversion hurl hhash =>
      refine ⟨hversion, package, hpackage, hkind, ?_, hname⟩
      rw [used, hkind, Option.bind_some, hpreferred]
      rfl

theorem exists_artifact {package : PackageData} {kind : PackageKind} {installref : InstallRef}
    (h : document.validate crates indexSource artifactBase platform = .ok artifacts)
    (hpackage : package ∈ document.packages) (hkind : recognised package = some kind)
    (hpreferred : preferred platform kind package = some installref) :
    ∃ artifact ∈ artifacts, RecordOf crates artifactBase package installref kind artifact := by
  obtain ⟨hcomplete, hwell⟩ := exists_validate_ok.mp ⟨artifacts, h⟩ package hpackage kind hkind
  obtain ⟨artifact, hrecord⟩ := exists_record hcomplete (hwell installref hpreferred)
  refine ⟨artifact, (mem_validated_iff h).mpr ⟨package, hpackage, ?_⟩, hrecord⟩
  exact ⟨kind, installref, hkind, hpreferred, hrecord⟩

theorem exists_server {package : PackageData} {installref : InstallRef} {hash : List UInt8}
    {artifact : ValidatedArtifact}
    (h : RecordOf crates artifactBase package installref .server artifact)
    (hhash : HasDigest crates installref hash) :
    ∃ identity pkg, artifact = .server identity pkg ∧ pkg.hash = hash ∧
      pkg.version = package.version ∧ pkg.kind = .tarZst := by
  cases h with
  | server hversion hurl hhash' => exact ⟨_, _, rfl, hhash'.unique hhash, rfl, rfl⟩

theorem Harmless.components_eq {a : ValidatedArtifact} {dl : Download}
    (hharmless : Harmless (buildCrates d crates) platform cacheDir document)
    (h : document.validate (buildCrates d crates) indexSource artifactBase platform = .ok artifacts)
    (ha : a ∈ artifacts) (hdl : downloadPackage cacheDir a = some dl) :
    components dl.cachePath = components (downloadDir cacheDir) ++ [.normal (fileName a)] := by
  cases a with
  | server identity pkg =>
      obtain rfl := Option.some.inj hdl
      obtain ⟨hversion, hkind, -⟩ := of_mem_server h ha
      exact components_server hversion hkind
  | extension identity pkg =>
      obtain rfl := Option.some.inj hdl
      obtain ⟨hversion, package, hpackage, hkind, hused, hname⟩ := of_mem_extension h ha
      rw [components_extension hversion, hharmless.tags package hpackage hkind hused _ hname]
      rfl
  | cli identity pkg => cases hdl

/-- Files of one name hold what was asked for under one digest. -/
theorem Harmless.hash_eq {a b : ValidatedArtifact} {dl dl' : Download}
    (hharmless : Harmless (buildCrates d crates) platform cacheDir document)
    (h : document.validate (buildCrates d crates) indexSource artifactBase platform = .ok artifacts)
    (ha : a ∈ artifacts) (hb : b ∈ artifacts) (hdl : downloadPackage cacheDir a = some dl)
    (hdl' : downloadPackage cacheDir b = some dl') (hname : fileName a = fileName b) :
    dl.hash = dl'.hash := by
  cases a with
  | server identity pkg =>
      obtain rfl := Option.some.inj hdl
      obtain ⟨-, hkind, p, hp, hserver, hversion, i, hi, hhash⟩ := of_mem_server h ha
      cases b with
      | server identity' pkg' =>
          obtain rfl := Option.some.inj hdl'
          obtain ⟨-, hkind', q, hq, hserver', hversion', j, hj, hhash'⟩ := of_mem_server h hb
          obtain ⟨heq, hshort⟩ := (cacheFileName_eq_iff hkind hkind').mp hname
          exact hharmless.digests p hp q hq hserver hserver' i j hi hj _ _ hhash hhash'
            (hversion.trans (heq.trans hversion'.symm)) hshort
      | extension identity' pkg' => exact absurd hname (cacheFileName_ne hkind)
      | cli identity' pkg' => cases hdl'
  | extension identity pkg =>
      obtain rfl := Option.some.inj hdl
      cases b with
      | server identity' pkg' =>
          obtain ⟨-, hkind', -⟩ := of_mem_server h hb
          exact absurd hname.symm (cacheFileName_ne hkind')
      | extension identity' pkg' =>
          obtain rfl := Option.some.inj hdl'
          exact extensionTail_inj hname
      | cli identity' pkg' => cases hdl'
  | cli identity pkg => cases hdl

theorem Harmless.contained
    (hharmless : Harmless (buildCrates d crates) platform cacheDir document)
    (h : document.validate (buildCrates d crates) indexSource artifactBase platform = .ok artifacts) :
    Contained cacheDir artifacts where
  inside a ha dl hdl := ⟨fileName a, hharmless.components_eq h ha hdl⟩
  apart := by
    intro a ha b hb dl dl' hdl hdl' hne heq
    rw [hharmless.components_eq h ha hdl, hharmless.components_eq h hb hdl'] at heq
    have hname := List.append_cancel_left heq
    simp only [List.cons.injEq, Component.normal.injEq, and_true] at hname
    exact hne (hharmless.hash_eq h ha hb hdl hdl' hname)

theorem Contained.harmless (hcontained : Contained cacheDir artifacts)
    (h : document.validate (buildCrates d crates) indexSource artifactBase platform = .ok artifacts) :
    Harmless (buildCrates d crates) platform cacheDir document where
  tags := by
    intro package hpackage hkind hused name hname
    rw [used, hkind, Option.bind_some] at hused
    obtain ⟨installref, hpreferred⟩ := Option.isSome_iff_exists.mp hused
    obtain ⟨artifact, hmem, hrecord⟩ := exists_artifact h hpackage hkind hpreferred
    obtain ⟨identity, pkg, rfl, rfl⟩ :
        ∃ identity pkg, artifact = .extension identity pkg ∧ pkg.name = name := by
      cases hrecord with
      | extension hname' hslot hversion hurl hhash =>
          exact ⟨_, _, rfl, Option.some.inj (hname'.symm.trans hname)⟩
    obtain ⟨file, hfile⟩ := hcontained.inside _ hmem _ rfl
    rw [components_extension (of_mem_extension h hmem).1] at hfile
    exact (List.append_inj' hfile rfl).1
  digests := by
    intro p hp q hq hserver hserver' i j hi hj a b ha hb hversion hshort
    obtain ⟨artifact, hmem, hrecord⟩ := exists_artifact h hp hserver hi
    obtain ⟨artifact', hmem', hrecord'⟩ := exists_artifact h hq hserver' hj
    obtain ⟨identity, pkg, rfl, rfl, hpkg, hkind⟩ := exists_server hrecord ha
    obtain ⟨identity', pkg', rfl, rfl, hpkg', hkind'⟩ := exists_server hrecord' hb
    have hname : cacheFileName pkg = cacheFileName pkg' :=
      (cacheFileName_eq_iff hkind hkind').mpr ⟨hpkg.trans (hversion.trans hpkg'.symm), hshort⟩
    by_contra hne
    refine hcontained.apart _ hmem _ hmem' _ _ rfl rfl hne ?_
    rw [hname]

/-- **The downloads of an accepted index are written to files of the download directory, a
file for each digest, exactly when the tags of its extensions lead to no other directory and
no two servers of one version have digests with the same seven characters in front.** -/
theorem contained_iff (d : Digits) (crates : Crates) (indexSource artifactBase : Source)
    (platform : String) (cacheDir : Text) (document : IndexDocument)
    (artifacts : List ValidatedArtifact)
    (h : document.validate (buildCrates d crates) indexSource artifactBase platform =
      .ok artifacts) :
    Contained cacheDir artifacts ↔ Harmless (buildCrates d crates) platform cacheDir document :=
  ⟨fun hcontained => hcontained.harmless h, fun hharmless => hharmless.contained h⟩

end Index

/-! ## Indexes that choose -/

/-- `hex::decode` -/
def hexDecode : Text → Except String (List UInt8)
  | [] => .ok []
  | [_] => .error "Odd number of digits"
  | high :: low :: rest =>
      match "0123456789abcdef".toList.idxOf? high, "0123456789abcdef".toList.idxOf? low with
      | some m, some n => (hexDecode rest).map fun bytes => UInt8.ofNat (16 * m + n) :: bytes
      | _, _ => .error "Invalid character"

def httpsOnly : Crates where
  parseUrl value :=
    if "https://".toList.isPrefixOf value.toList then some ("https", value) else none
  joinUrl base value := .ok (base ++ value)
  urlToFilePath := some
  urlFromFilePath := some
  joinParent _ value := value
  isAbsolute _ := false
  matchesBuild _ := false
  parseSemver := .ok
  decodeHex value := hexDecode value.toList

/-- Digests that begin with the same seven characters. -/
def digestOf (c : Char) : String := String.ofList (List.replicate 7 'a' ++ List.replicate 121 c)

def installrefOf (kind encoding : String) (c : Char) : InstallRef :=
  ⟨"https://host/file", kind, some encoding, ⟨10, some (digestOf c)⟩⟩

def serverOf (c : Char) : PackageData :=
  ⟨"gel-server", "7.0+abcdef0", [installrefOf "application/x-tar" "zstd" c], "7", ∅⟩

def extensionOf (name : String) : PackageData :=
  ⟨"ext", "7.0+abcdef0", [installrefOf "application/zip" "identity" '1'], "7",
    (Finmap.insert "extension" name ∅).insert "server_slot" "7"⟩

/-- The bytes of such a digest, for the digit of the others. -/
def bytesOf (n : UInt8) : List UInt8 :=
  List.replicate 3 0xaa ++ (0xa0 + n) :: List.replicate 60 (17 * n)

theorem hasDigest_one (kind encoding : String) :
    HasDigest (buildCrates .asciiOnly httpsOnly) (installrefOf kind encoding '1') (bytesOf 1) :=
  ⟨digestOf '1', rfl, by decide +kernel⟩

theorem hasDigest_two (kind encoding : String) :
    HasDigest (buildCrates .asciiOnly httpsOnly) (installrefOf kind encoding '2') (bytesOf 2) :=
  ⟨digestOf '2', rfl, by decide +kernel⟩

theorem recognised_extensionOf (name : String) :
    recognised (extensionOf name) = some .extension := by
  have htag : "extension" ∈ (extensionOf name).tags :=
    Finmap.mem_insert.mpr (.inr (Finmap.mem_insert.mpr (.inl rfl)))
  have hname : (extensionOf name).basename = "ext" := rfl
  rw [recognised, hname, if_neg (by decide), if_neg (by decide), if_pos htag]

theorem lookup_extensionOf (name : String) :
    (extensionOf name).tags.lookup "extension" = some name := by
  rw [extensionOf, Finmap.lookup_insert_of_ne _ (by decide), Finmap.lookup_insert]

theorem preferred_serverOf (platform : String) (c : Char) :
    preferred platform .server (serverOf c) =
      some (installrefOf "application/x-tar" "zstd" c) := rfl

theorem preferred_extensionOf (platform name : String) :
    preferred platform .extension (extensionOf name) =
      some (installrefOf "application/zip" "identity" '1') := rfl

theorem matchesBuild_sample :
    (buildCrates .asciiOnly httpsOnly).matchesBuild "7.0+abcdef0" := by
  decide

theorem resolves_sample :
    (resolveInstallrefUrl (buildCrates .asciiOnly httpsOnly) (.file "index.json")
      "https://host/file").isSome := by
  decide

theorem acceptable_serverOf {platform : String} {c : Char} {hash : List UInt8}
    (hhash : HasDigest (buildCrates .asciiOnly httpsOnly)
      (installrefOf "application/x-tar" "zstd" c) hash) :
    Acceptable (buildCrates .asciiOnly httpsOnly) (.file "index.json") platform (serverOf c) := by
  intro kind hkind
  obtain rfl : PackageKind.server = kind := Option.some.inj hkind
  refine ⟨⟨List.cons_ne_nil _ _, rfl, fun h => by cases h⟩, fun installref h => ?_⟩
  rw [preferred_serverOf] at h
  obtain rfl := Option.some.inj h
  exact ⟨matchesBuild_sample, resolves_sample, hash, hhash⟩

theorem acceptable_extensionOf {platform name : String} (hname : name ≠ "") :
    Acceptable (buildCrates .asciiOnly httpsOnly) (.file "index.json") platform
      (extensionOf name) := by
  intro kind hkind
  rw [recognised_extensionOf] at hkind
  obtain rfl := Option.some.inj hkind
  refine ⟨⟨List.cons_ne_nil _ _, rfl, fun _ tag htag => ?_⟩, fun installref h => ?_⟩
  · rcases List.mem_cons.mp htag with rfl | htag
    · exact ⟨name, lookup_extensionOf name, hname⟩
    · rw [List.mem_singleton.mp htag]
      exact ⟨"7", Finmap.lookup_insert _, by decide⟩
  · rw [preferred_extensionOf] at h
    obtain rfl := Option.some.inj h
    exact ⟨matchesBuild_sample, resolves_sample, bytesOf 1, hasDigest_one _ _⟩

/-- A server and an extension with a plain tag. -/
theorem contained_iff_plain : ∃ artifacts,
    IndexDocument.validate (buildCrates .asciiOnly httpsOnly)
        ⟨[serverOf '1', extensionOf "pgvector"]⟩ (.file "index.json") (.file "index.json")
        "x86_64-unknown-linux-musl" = .ok artifacts ∧
      (Contained "/cache".toList artifacts ↔
        Harmless (buildCrates .asciiOnly httpsOnly) "x86_64-unknown-linux-musl" "/cache".toList
          ⟨[serverOf '1', extensionOf "pgvector"]⟩) := by
  have haccepts : ∀ package ∈ [serverOf '1', extensionOf "pgvector"],
      Acceptable (buildCrates .asciiOnly httpsOnly) (.file "index.json")
        "x86_64-unknown-linux-musl" package := by
    intro package hpackage
    rcases List.mem_cons.mp hpackage with rfl | hpackage
    · exact acceptable_serverOf (hasDigest_one _ _)
    · rw [List.mem_singleton.mp hpackage]
      exact acceptable_extensionOf (by decide)
  obtain ⟨artifacts, h⟩ := exists_validate_ok.mpr haccepts
  exact ⟨artifacts, h, contained_iff _ _ _ _ _ _ _ _ h⟩

/-- A tag leads out of the directory, and two servers share a file. -/
theorem not_contained :
    (∃ artifacts, IndexDocument.validate (buildCrates .asciiOnly httpsOnly)
        ⟨[extensionOf "../../bin/x"]⟩ (.file "index.json") (.file "index.json")
        "x86_64-unknown-linux-musl" = .ok artifacts ∧ ¬ Contained "/cache".toList artifacts) ∧
    ∃ artifacts, IndexDocument.validate (buildCrates .asciiOnly httpsOnly)
        ⟨[serverOf '1', serverOf '2']⟩ (.file "index.json") (.file "index.json")
        "x86_64-unknown-linux-musl" = .ok artifacts ∧ ¬ Contained "/cache".toList artifacts := by
  constructor
  · have haccepts : ∀ package ∈ [extensionOf "../../bin/x"],
        Acceptable (buildCrates .asciiOnly httpsOnly) (.file "index.json")
          "x86_64-unknown-linux-musl" package := by
      intro package hpackage
      rw [List.mem_singleton.mp hpackage]
      exact acceptable_extensionOf (by decide)
    obtain ⟨artifacts, h⟩ := exists_validate_ok.mpr haccepts
    refine ⟨artifacts, h, fun hcontained => ?_⟩
    have hleads := (hcontained.harmless h).tags _ List.mem_cons_self
      (recognised_extensionOf _) (by rw [used, recognised_extensionOf]; rfl) _
      (lookup_extensionOf _)
    exact absurd hleads (by decide)
  · have haccepts : ∀ package ∈ [serverOf '1', serverOf '2'],
        Acceptable (buildCrates .asciiOnly httpsOnly) (.file "index.json")
          "x86_64-unknown-linux-musl" package := by
      intro package hpackage
      rcases List.mem_cons.mp hpackage with rfl | hpackage
      · exact acceptable_serverOf (hasDigest_one _ _)
      · rw [List.mem_singleton.mp hpackage]
        exact acceptable_serverOf (hasDigest_two _ _)
    obtain ⟨artifacts, h⟩ := exists_validate_ok.mpr haccepts
    refine ⟨artifacts, h, fun hcontained => ?_⟩
    have hsame := (hcontained.harmless h).digests _ List.mem_cons_self _
      (List.mem_cons_of_mem _ List.mem_cons_self) rfl rfl _ _ (preferred_serverOf _ _)
      (preferred_serverOf _ _) _ _ (hasDigest_one _ _) (hasDigest_two _ _) rfl (by decide)
    exact absurd hsame (by decide)

end GelCli.Install
