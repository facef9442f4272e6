import Mathlib.Data.List.Induction
import Mathlib.Data.List.Nodup
import GelCli.Registry.AllOrNothing
import GelCli.Versions.Accepted
import GelCli.Versions.FromVersion

/-!
# Two ways to select a package

A server package is selected by a filter, which keeps the last of the best ones, or by a
specific version, which takes the first one that has it; both choose from the sorted
packages of a catalogue. With an exact filter they choose from the same packages, and
agree if there is at most one.
-/

namespace GelCli.Versions

open GelCli.Foundation GelCli.Registry

/-! ## The packages of a catalogue -/

def serverPackage? : ValidatedArtifact → Option ServerPackage
  | .server _ package => some package
  | .cli _ _ | .extension _ _ => none

def servers (artifacts : List ValidatedArtifact) : List ServerPackage :=
  artifacts.filterMap serverPackage?

/-- `Catalog::server_packages`; `none` is the panic of a comparison. -/
def serverPackages (d : Digits) (artifacts : List ValidatedArtifact) :
    Option (List ServerPackage) :=
  (Comparing.sort (servers artifacts)).run (cmpPackages d)

/-- `find`; `none` is the panic of `Build::specific`. -/
def selectSpecificServerPackageFromPackages (d : Digits) :
    List ServerPackage → Specific → Option (Option ServerPackage)
  | [], _ => some none
  | pkg :: packages, version => do
      let ver ← (packageBuild pkg).specific d
      if ver = version then return some pkg
      else selectSpecificServerPackageFromPackages d packages version

def MinorVersion.filterMinor : MinorVersion → FilterMinor
  | .dev v => .dev v
  | .alpha v => .alpha v
  | .beta v => .beta v
  | .rc v => .rc v
  | .minor v => .minor v

/-- The exact filter for a version. -/
def Filter.exactly (v : Specific) : Filter := ⟨v.major, some v.minor.filterMinor, true⟩

theorem Filter.matchesSpecific_exactly {v w : Specific} :
    (Filter.exactly v).matchesSpecific w ↔ w = v := by
  have hversion : v.minor.filterMinor.version = v.minor := by
    cases v.minor <;> rfl
  show matchesExact _ w ↔ _
  rw [matchesExact, Bool.and_eq_true, beq_iff_eq]
  show w.major = v.major ∧ isMinor w.minor v.minor.filterMinor ↔ _
  rw [isMinor_iff, hversion]
  constructor
  · rintro ⟨hmajor, hminor⟩
    rcases v with ⟨major, minor⟩
    rcases w with ⟨major', minor'⟩
    cases hmajor
    cases hminor
    rfl
  · rintro rfl
    exact ⟨rfl, rfl⟩

/-! ## What the two ways select -/

section Selection

variable {d : Digits} {v : Specific}

def hasVersion (d : Digits) (v : Specific) (pkg : ServerPackage) : Bool :=
  (packageBuild pkg).specific d = some v

/-- The exact filter keeps the last package of the version. -/
theorem select_exactly {packages : List ServerPackage}
    (h : ∀ p ∈ packages, ((packageBuild p).specific d).isSome) (channel : Registry.Channel) :
    selectServerPackageFromPackages d packages ⟨channel, some (Filter.exactly v)⟩ =
      some (packages.filter (hasVersion d v)).getLast? := by
  have hrun : packages.foldlM (selectStep d ⟨channel, some (Filter.exactly v)⟩) none =
      some ((packages.filter (hasVersion d v)).getLast?.map fun p => (v, p)) := by
    induction packages using List.reverseRecOn with
    | nil => rfl
    | append_singleton packages pkg ih =>
        obtain ⟨ver, hver⟩ := Option.isSome_iff_exists.mp (h pkg (by simp))
        rw [List.foldlM_append, ih fun p hp => h p (List.mem_append_left _ hp),
          Option.bind_eq_bind, Option.bind_some, List.foldlM_cons, selectStep_eq rfl hver,
          List.filter_append, List.filter_singleton]
        show some (if _ then _ else _) = _
        by_cases hv : ver = v
        · subst hv
          have hkept : hasVersion d ver pkg = true := by simp [hasVersion, hver]
          rw [if_pos (Filter.matchesSpecific_exactly.mpr rfl), hkept, cond_true,
            List.getLast?_concat]
          -- an equal version does not stand in the way of a later one
          cases (packages.filter (hasVersion d ver)).getLast? with
          | none => rfl
          | some best =>
              show some (some (if ver < ver then _ else _)) = _
              rw [if_neg (lt_irrefl ver)]
              rfl
        · have hdropped : hasVersion d v pkg = false := by simp [hasVersion, hver, hv]
          rw [if_neg fun hmatch => hv (Filter.matchesSpecific_exactly.mp hmatch),
            hdropped, cond_false, List.append_nil]
  rw [selectServerPackageFromPackages, hrun, Option.map_some, Option.map_map]
  exact congrArg some Option.map_id'

/-- The specific version takes the first package of it. -/
theorem selectSpecific_eq {packages : List ServerPackage}
    (h : ∀ p ∈ packages, ((packageBuild p).specific d).isSome) :
    selectSpecificServerPackageFromPackages d packages v =
      some (packages.filter (hasVersion d v)).head? := by
  induction packages with
  | nil => rfl
  | cons pkg packages ih =>
      obtain ⟨ver, hver⟩ := Option.isSome_iff_exists.mp (h pkg List.mem_cons_self)
      rw [selectSpecificServerPackageFromPackages, hver, Option.bind_eq_bind, Option.bind_some]
      by_cases hv : ver = v
      · rw [if_pos hv, List.filter_cons_of_pos (by simp [hasVersion, hver, hv]), List.head?_cons]
        rfl
      · rw [if_neg hv, List.filter_cons_of_neg (by simp [hasVersion, hver, hv])]
        exact ih fun p hp => h p (List.mem_cons_of_mem _ hp)

/-- A selection by a filter reads the version of every package. -/
theorem isSome_of_select {q : Query} {f : Filter} (hq : q.version = some f)
    {packages : List ServerPackage} {chosen : Option ServerPackage}
    (h : selectServerPackageFromPackages d packages q = some chosen) :
    ∀ p ∈ packages, ((packageBuild p).specific d).isSome := by
  obtain ⟨best, hrun, -⟩ := Option.map_eq_some_iff.mp h
  have hall : ∀ start, packages.foldlM (selectStep d q) start = some best →
      ∀ p ∈ packages, ((packageBuild p).specific d).isSome := by
    clear h hrun
    induction packages with
    | nil => exact fun start _ p hp => by cases hp
    | cons pkg packages ih =>
        intro start hrun p hp
        rw [List.foldlM_cons, Option.bind_eq_bind, Option.bind_eq_some_iff] at hrun
        obtain ⟨next, hstep, hrun⟩ := hrun
        rcases List.mem_cons.mp hp with rfl | hp
        · cases hver : (packageBuild p).specific d with
          | none =>
              rw [selectStep_panics hq hver] at hstep
              cases hstep
          | some ver => rfl
        · exact ih next hrun p hp
  exact hall none hrun

/-! ## Where they agree -/

/-- Both ways return, and return the same. -/
def SelectionsAgree (d : Digits) (artifacts : List ValidatedArtifact) (v : Specific) : Prop :=
  ∃ packages chosen, serverPackages d artifacts = some packages ∧
    (∀ channel, selectServerPackageFromPackages d packages
      ⟨channel, some (Filter.exactly v)⟩ = some chosen) ∧
    selectSpecificServerPackageFromPackages d packages v = some chosen

/-- All versions are read, and one package at most has the version. -/
structure OneOfVersion (d : Digits) (artifacts : List ValidatedArtifact) (v : Specific) : Prop where
  reads : ∀ p ∈ servers artifacts, ((packageBuild p).specific d).isSome
  one : ∀ p ∈ servers artifacts, ∀ p' ∈ servers artifacts,
    (packageBuild p).specific d = some v → (packageBuild p').specific d = some v → p = p'

theorem head?_eq_getLast?_iff {α : Type} {l : List α} (h : l.Nodup) :
    l.head? = l.getLast? ↔ ∀ x ∈ l, ∀ y ∈ l, x = y := by
  constructor
  · intro heq
    cases l with
    | nil => exact fun x hx => by cases hx
    | cons a l =>
        rcases List.eq_nil_or_concat' l with rfl | ⟨init, b, rfl⟩
        · intro x hx y hy
          rw [List.mem_singleton.mp hx, List.mem_singleton.mp hy]
        · rw [List.head?_cons, ← List.cons_append, List.getLast?_concat] at heq
          obtain rfl := Option.some.inj heq
          exact absurd (List.mem_append_right _ List.mem_cons_self) (List.nodup_cons.mp h).1
  · intro hall
    cases hhead : l.head? with
    | none =>
        rw [List.head?_eq_none_iff.mp hhead]
        rfl
    | some x =>
        have hx := List.mem_of_head? hhead
        rw [List.getLast?_eq_some_getLast (List.ne_nil_of_mem hx)]
        exact congrArg some (hall x hx _ (List.getLast_mem _))

theorem selectionsAgree_iff_of_nodup {artifacts : List ValidatedArtifact}
    (hnodup : (servers artifacts).Nodup) :
    SelectionsAgree d artifacts v ↔ OneOfVersion d artifacts v := by
  have hone : ∀ packages, serverPackages d artifacts = some packages →
      ((packages.filter (hasVersion d v)).head? = (packages.filter (hasVersion d v)).getLast? ↔
        ∀ p ∈ servers artifacts, ∀ p' ∈ servers artifacts,
          (packageBuild p).specific d = some v → (packageBuild p').specific d = some v →
            p = p') := by
    intro packages hsorted
    have hperm := Comparing.run_sort_perm hsorted
    rw [head?_eq_getLast?_iff ((hperm.nodup_iff.mpr hnodup).filter _)]
    simp only [List.mem_filter, hasVersion, decide_eq_true_eq, hperm.mem_iff]
    exact ⟨fun h p hp p' hp' hv hv' => h p ⟨hp, hv⟩ p' ⟨hp', hv'⟩,
      fun h p hp p' hp' => h p hp.1 p' hp'.1 hp.2 hp'.2⟩
  constructor
  · rintro ⟨packages, chosen, hsorted, hfilter, hspecific⟩
    have hreads := isSome_of_select rfl (hfilter .stable)
    have hsame : (packages.filter (hasVersion d v)).head? =
        (packages.filter (hasVersion d v)).getLast? := by
      have hfilter := hfilter .stable
      rw [select_exactly hreads] at hfilter
      rw [selectSpecific_eq hreads] at hspecific
      exact Option.some.inj (hspecific.trans hfilter.symm)
    refine ⟨fun p hp => hreads p ?_, (hone packages hsorted).mp hsame⟩
    exact (Comparing.run_sort_perm hsorted).mem_iff.mpr hp
  · rintro ⟨hreads, hunique⟩
    have hsome : (serverPackages d artifacts).isSome := Comparing.run_sort_isSome
      fun p hp p' hp' => cmpPackages_isSome (hreads p hp) (hreads p' hp')
    obtain ⟨packages, hsorted⟩ := Option.isSome_iff_exists.mp hsome
    have hreads' : ∀ p ∈ packages, ((packageBuild p).specific d).isSome := fun p hp =>
      hreads p ((Comparing.run_sort_perm hsorted).mem_iff.mp hp)
    refine ⟨packages, _, hsorted, fun channel => select_exactly hreads' channel, ?_⟩
    rw [selectSpecific_eq hreads', (hone packages hsorted).mpr hunique]

/-! ## Catalogues -/

theorem identity_of_record {crates : Crates} {artifactBase : Source} {package : PackageData}
    {installref : InstallRef} {kind : PackageKind} {artifact : ValidatedArtifact}
    {pkg : ServerPackage} (h : RecordOf crates artifactBase package installref kind artifact)
    (hpkg : serverPackage? artifact = some pkg) :
    artifact.identity = .server pkg.name pkg.version pkg.slot := by
  cases h with
  | server hversion hurl hhash =>
      cases hpkg
      rfl
  | cli => cases hpkg
  | extension => cases hpkg

/-- A catalogue has no server package twice. -/
theorem nodup_servers {loader : Loader} {channel : Registry.Channel} {platform : String}
    {sources : List RegistrySource} {load : CatalogLoad}
    (h : Load loader channel platform sources (some (.ok load))) :
    (servers load.artifacts).Nodup := by
  have hidentity : ∀ a ∈ load.artifacts, ∀ pkg, serverPackage? a = some pkg →
      a.identity = .server pkg.name pkg.version pkg.slot := by
    intro a ha pkg hpkg
    obtain ⟨artifactBase, package, kind, installref, -, -, hrecord⟩ := builtFrom_of_load h ha
    exact identity_of_record hrecord hpkg
  have hdistinct := List.pairwise_map.mp (nodup_of_load h)
  rw [servers, List.Nodup, List.pairwise_filterMap]
  refine hdistinct.imp_of_mem fun {a a'} ha ha' hne pkg hpkg pkg' hpkg' heq => hne ?_
  rw [hidentity a ha pkg hpkg, hidentity a' ha' pkg' hpkg', heq]

/-- **For every catalogue the two ways of selecting a specific version agree** if and only
if all versions are read and no two server packages have this version. -/
theorem selectionsAgree_iff {loader : Loader} {channel : Registry.Channel} {platform : String}
    {sources : List RegistrySource} {load : CatalogLoad}
    (h : Load loader channel platform sources (some (.ok load))) (v : Specific) :
    SelectionsAgree d load.artifacts v ↔ OneOfVersion d load.artifacts v :=
  selectionsAgree_iff_of_nodup (nodup_servers h)

end Selection

/-! ## Two builds -/

/-- A build of the server, with a digest of zeros. -/
def serverBuild (build : String × String) : PackageData where
  basename := "gel-server"
  version := build.1
  installrefs := [⟨build.2, "application/x-tar", some "zstd",
    ⟨10, some (String.ofList (List.replicate 128 '0'))⟩⟩]
  slot := "7"
  tags := ∅

def serverRecord (build : String × String) : ServerPackage where
  name := "gel-server"
  version := build.1
  url := "https://example.com" ++ build.2
  size := 10
  hash := List.replicate 64 0
  kind := .tarZst
  slot := "7"
  tags := ∅

/-- A registry of one index with these builds. -/
def indexOf (builds : List (String × String)) : Loader where
  crates := buildCrates .asciiOnly
    { missingIndex.crates with
      decodeHex := fun value => .ok (List.replicate (value.utf8ByteSize / 2) 0) }
  quote := id
  loadManifest := fun _ _ => .ok []
  deserializeManifest := fun _ => .ok ⟨1, []⟩
  loadIndex := fun _ _ _ => .ok []
  deserializeIndex := fun _ => .ok ⟨builds.map serverBuild⟩

def catalogueOf (builds : List (String × String)) : CatalogLoad where
  artifacts := builds.map fun build =>
    .server (.server "gel-server" build.1 "7") (serverRecord build)
  sourceReports := [.healthy (.legacyPackageRoot "https://example.com") 1 builds.length]
  conflicts := []

set_option maxRecDepth 4000 in
/-- Two versions of one major. -/
theorem selectionsAgree_versions :
    let builds := [("7.1+aaaaaaa", "/a.tar.zst"), ("7.2+bbbbbbb", "/b.tar.zst")]
    Load (indexOf builds) .stable "linux" [.legacyPackageRoot "https://example.com"]
        (some (.ok (catalogueOf builds))) ∧
      SelectionsAgree .asciiOnly (catalogueOf builds).artifacts ⟨7, .minor 1⟩ := by
  have hload : Load (indexOf [("7.1+aaaaaaa", "/a.tar.zst"), ("7.2+bbbbbbb", "/b.tar.zst")]) .stable
      "linux" [.legacyPackageRoot "https://example.com"]
      (some (.ok (catalogueOf [("7.1+aaaaaaa", "/a.tar.zst"), ("7.2+bbbbbbb", "/b.tar.zst")]))) :=
    load_iff.mpr rfl
  have hfirst : (packageBuild (serverRecord ("7.1+aaaaaaa", "/a.tar.zst"))).specific .asciiOnly =
      some ⟨7, .minor 1⟩ := by
    decide
  have hsecond : (packageBuild (serverRecord ("7.2+bbbbbbb", "/b.tar.zst"))).specific .asciiOnly =
      some ⟨7, .minor 2⟩ := by
    decide
  refine ⟨hload, (selectionsAgree_iff hload _).mpr ⟨fun p hp => ?_, fun p hp p' hp' hv hv' => ?_⟩⟩
  · rcases List.mem_cons.mp hp with rfl | hp
    · rw [hfirst]
      rfl
    · rw [List.mem_singleton.mp hp, hsecond]
      rfl
  · rcases List.mem_cons.mp hp with rfl | hp
    · rcases List.mem_cons.mp hp' with rfl | hp'
      · rfl
      · rw [List.mem_singleton.mp hp', hsecond] at hv'
        exact absurd hv' (by decide)
    · rw [List.mem_singleton.mp hp, hsecond] at hv
      exact absurd hv (by decide)

set_option maxRecDepth 4000 in
/-- Two builds of one version: the filter chooses the second, the version the first. -/
theorem not_selectionsAgree_builds :
    let builds := [("7.1+aaaaaaa", "/a.tar.zst"), ("7.1+bbbbbbb", "/b.tar.zst")]
    Load (indexOf builds) .stable "linux" [.legacyPackageRoot "https://example.com"]
        (some (.ok (catalogueOf builds))) ∧
      ¬ SelectionsAgree .asciiOnly (catalogueOf builds).artifacts ⟨7, .minor 1⟩ := by
  have hload : Load (indexOf [("7.1+aaaaaaa", "/a.tar.zst"), ("7.1+bbbbbbb", "/b.tar.zst")]) .stable
      "linux" [.legacyPackageRoot "https://example.com"]
      (some (.ok (catalogueOf [("7.1+aaaaaaa", "/a.tar.zst"), ("7.1+bbbbbbb", "/b.tar.zst")]))) :=
    load_iff.mpr rfl
  refine ⟨hload, fun hagree => ?_⟩
  have hone := (selectionsAgree_iff_of_nodup (nodup_servers hload)).mp hagree
  have heq := hone.one (serverRecord ("7.1+aaaaaaa", "/a.tar.zst")) List.mem_cons_self
    (serverRecord ("7.1+bbbbbbb", "/b.tar.zst")) (List.mem_cons_of_mem _ List.mem_cons_self)
    (by decide) (by decide)
  exact absurd (congrArg TaggedPackage.version heq) (by decide)

end GelCli.Versions
