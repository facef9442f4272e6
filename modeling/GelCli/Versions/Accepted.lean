import Mathlib.Data.List.ReduceOption
import GelCli.Foundation.Comparing
import GelCli.Foundation.Results
import GelCli.Registry.AllOrNothing
import GelCli.Versions.Query
import GelCli.Versions.Shapes

/-!
# The versions of validated indexes

An index is validated with the pattern `BUILD`, its packages are sorted, filtered and
selected by the version that the pattern `SPECIFIC` finds in the same text. A build
version is taken apart into its parts, and the parts say whether that version is found.
-/

namespace GelCli.Versions

open GelCli.Foundation GelCli.Registry

variable {d : Digits}

/-! ## The parts of a build version -/

structure BuildParts where
  major : Text
  minor : Text
  patch : Option Text
  pre : Option (Stage × Text)
  hash : Text

namespace BuildParts

def patchText : Option Text → Text
  | none => []
  | some n => '.' :: n

def preText : Option (Stage × Text) → Text
  | none => []
  | some (stage, n) => '-' :: (stage.name ++ '.' :: n)

/-- What stands behind the minor version. -/
def behind (p : BuildParts) : Text := patchText p.patch ++ (preText p.pre ++ '+' :: p.hash)

def text (p : BuildParts) : Text := p.major ++ '.' :: (p.minor ++ p.behind)

/-- `[a-f0-9]{7}|local` -/
def Hash (t : Text) : Prop := t.length = 7 ∧ (∀ c ∈ t, hexDigit c) ∨ t = "local".toList

structure WellFormed (d : Digits) (p : BuildParts) : Prop where
  major : Number d p.major
  minor : Number d p.minor
  patch : ∀ n ∈ p.patch, Number d n
  pre : ∀ x ∈ p.pre, Number d x.2
  hash : Hash p.hash

/-- There is no third number, a pre-release follows the minor version `0`, and the
numbers that are read are below 2^32. -/
structure Readable (p : BuildParts) : Prop where
  patch : p.patch = none
  major : Fits p.major
  minor : p.pre = none → Fits p.minor
  pre : ∀ x ∈ p.pre, p.minor = ['0'] ∧ Fits x.2

end BuildParts

section Pattern

variable {g : List (Nat × Text)} {t rest : Text}

theorem reads_patch :
    (Regex.opt (.seq (.word ['.']) (.plus d.isDigit))).Reads g t rest ↔
      g = [] ∧ ∃ patch, (∀ n ∈ patch, Number d n) ∧ t = BuildParts.patchText patch ++ rest := by
  constructor
  · rintro (⟨_, _, _, ⟨rfl, rfl⟩, ⟨rfl, n, hne, hall, rfl⟩, rfl⟩ | ⟨rfl, rfl⟩)
    · exact ⟨rfl, some n, fun n' hn' => by cases hn'; exact ⟨hne, hall⟩, rfl⟩
    · exact ⟨rfl, none, (fun n' hn' => by cases hn'), rfl⟩
  · rintro ⟨rfl, _ | n, hpatch, rfl⟩
    · exact .inr ⟨rfl, rfl⟩
    · obtain ⟨hne, hall⟩ := hpatch n rfl
      exact .inl ⟨[], n ++ rest, [], ⟨rfl, rfl⟩, ⟨rfl, n, hne, hall, rfl⟩, rfl⟩

theorem reads_pre :
    (Regex.opt (.seq (.word ['-'])
      (.seq (.words "alpha".toList ["beta".toList, "rc".toList, "dev".toList])
      (.seq (.word ['.']) (.plus d.isDigit))))).Reads g t rest ↔
      g = [] ∧ ∃ pre, (∀ x ∈ pre, Number d x.2) ∧ t = BuildParts.preText pre ++ rest := by
  constructor
  · rintro (⟨_, _, _, ⟨rfl, rfl⟩, ⟨_, _, _, hname, ⟨_, _, _, ⟨rfl, rfl⟩,
      ⟨rfl, n, hne, hall, rfl⟩, rfl⟩, rfl⟩, rfl⟩ | ⟨rfl, rfl⟩)
    · obtain ⟨rfl, name, hmem, rfl⟩ := Regex.reads_words.mp hname
      obtain ⟨stage, rfl⟩ := Stage.mem_names.mp hmem
      refine ⟨rfl, some (stage, n), fun x hx => by cases hx; exact ⟨hne, hall⟩, ?_⟩
      simp [BuildParts.preText]
    · exact ⟨rfl, none, (fun x hx => by cases hx), rfl⟩
  · rintro ⟨rfl, _ | ⟨stage, n⟩, hpre, rfl⟩
    · exact .inr ⟨rfl, rfl⟩
    · obtain ⟨hne, hall⟩ := hpre (stage, n) rfl
      refine .inl ⟨[], stage.name ++ '.' :: (n ++ rest), [], ⟨rfl, by simp [BuildParts.preText]⟩,
        ⟨[], '.' :: (n ++ rest), [], ?_, ⟨[], n ++ rest, [], ⟨rfl, rfl⟩,
          ⟨rfl, n, hne, hall, rfl⟩, rfl⟩, rfl⟩, rfl⟩
      exact Regex.reads_words.mpr ⟨rfl, stage.name, Stage.mem_names.mpr ⟨stage, rfl⟩, rfl⟩

theorem reads_hash :
    (Regex.seq (.alt ((Regex.set hexDigit).times 7) (.word "local".toList)) .atEnd).Reads g t rest ↔
      g = [] ∧ BuildParts.Hash t ∧ rest = [] := by
  constructor
  · rintro ⟨_, _, _, hhash | ⟨rfl, rfl⟩, ⟨rfl, rfl, rfl⟩, rfl⟩
    · obtain ⟨rfl, u, hlen, hall, hu⟩ := Regex.reads_times_set.mp hhash
      rw [List.append_nil] at hu
      exact ⟨rfl, .inl ⟨hu ▸ hlen, hu ▸ hall⟩, rfl⟩
    · exact ⟨rfl, .inr rfl, rfl⟩
  · rintro ⟨rfl, ⟨hlen, hall⟩ | rfl, rfl⟩
    · exact ⟨[], [], [], .inl (Regex.reads_times_set.mpr ⟨rfl, t, hlen, hall, by simp⟩),
        ⟨rfl, rfl, rfl⟩, rfl⟩
    · exact ⟨[], [], [], .inr ⟨rfl, rfl⟩, ⟨rfl, rfl, rfl⟩, rfl⟩

end Pattern

/-- The pattern `BUILD` matches the texts of well formed parts. -/
theorem isMatch_build {t : Text} :
    (buildRegex d).isMatch t ↔ ∃ p : BuildParts, p.WellFormed d ∧ p.text = t := by
  rw [Regex.isMatch_iff]
  constructor
  · rintro ⟨_, _, _, _, _, ⟨-, major, hne, hmajor, rfl⟩, ⟨_, _, _, ⟨-, rfl⟩, ⟨_, _, _,
      ⟨-, minor, hne', hminor, rfl⟩, ⟨_, _, _, hthird, ⟨_, _, _, hstage, ⟨_, _, _, ⟨-, rfl⟩,
      hlast, -⟩, -⟩, -⟩, -⟩, -⟩, -⟩
    obtain ⟨-, patch, hpatch, rfl⟩ := reads_patch.mp hthird
    obtain ⟨-, pre, hpre, rfl⟩ := reads_pre.mp hstage
    obtain ⟨-, hhash, -⟩ := reads_hash.mp hlast
    exact ⟨⟨major, minor, patch, pre, _⟩,
      ⟨⟨hne, hmajor⟩, ⟨hne', hminor⟩, hpatch, hpre, hhash⟩, rfl⟩
  · rintro ⟨⟨major, minor, patch, pre, hash⟩, h, rfl⟩
    exact ⟨_, _, _, _, _, ⟨rfl, major, h.major.1, h.major.2, rfl⟩, ⟨_, _, _, ⟨rfl, rfl⟩,
      ⟨_, _, _, ⟨rfl, minor, h.minor.1, h.minor.2, rfl⟩,
      ⟨_, _, _, reads_patch.mpr ⟨rfl, patch, h.patch, rfl⟩,
      ⟨_, _, _, reads_pre.mpr ⟨rfl, pre, h.pre, rfl⟩, ⟨_, _, _, ⟨rfl, rfl⟩,
      reads_hash.mpr ⟨rfl, h.hash, rfl⟩, rfl⟩, rfl⟩, rfl⟩, rfl⟩, rfl⟩, rfl⟩

/-! ## The version in the text -/

theorem fromStr_stage {major n tail : Text} (stage : Stage) (hmajor : Number d major)
    (hn : Number d n) (htail : Tail tail) :
    Specific.fromStr d (major ++ '.' :: '0' :: '-' :: (stage.name ++ '.' :: (n ++ tail))) = do
      let major ← parseU32 major
      let v ← parseU32 n
      return ⟨major, stage.minorVersion v⟩ := by
  rw [Specific.fromStr, captures_specific.mpr (.stage stage hmajor hn htail)]
  have hg3 : [(1, major), (2, stage.name), (3, n)].lookup 3 = some n := rfl
  have hg2 : [(1, major), (2, stage.name), (3, n)].lookup 2 = some stage.name := rfl
  have hg1 : [(1, major), (2, stage.name), (3, n)].lookup 1 = some major := rfl
  simp only [hg1, hg2, hg3, Option.map_some, Stage.ofName?_name, mapM_some, unwrap_some, pure_bind,
    bind_assoc]

theorem fromStr_minor {major minor tail : Text} (hmajor : Number d major)
    (hminor : Number d minor) (htail : Tail tail) :
    Specific.fromStr d (major ++ '.' :: (minor ++ tail)) = do
      let major ← parseU32 major
      let v ← parseU32 minor
      return ⟨major, .minor v⟩ := by
  rw [Specific.fromStr, captures_specific.mpr (.minor hmajor hminor htail)]
  have hg4 : [(1, major), (4, minor)].lookup 4 = some minor := rfl
  have hg3 : [(1, major), (4, minor)].lookup 3 = none := rfl
  have hg2 : [(1, major), (4, minor)].lookup 2 = none := rfl
  have hg1 : [(1, major), (4, minor)].lookup 1 = some major := rfl
  simp only [hg1, hg2, hg3, hg4, Option.map_none, mapM_some, mapM_none, unwrap_some, pure_bind,
    bind_assoc]

theorem parseU32_isSome {t : Text} (h : Number d t) :
    (∃ v, parseU32 t = .ok v) ↔ Fits t := by
  constructor
  · rintro ⟨v, hv⟩
    exact ((parseU32_eq_ok h.head?_ne_plus).mp hv).1
  · intro hfits
    obtain ⟨v, hv, -⟩ := hfits.exists_parse h.head?_ne_plus
    exact ⟨v, hv⟩

theorem both_isSome {a b : Text} {f : UInt32 → UInt32 → Specific} (ha : Number d a)
    (hb : Number d b) :
    (Except.toOption (do
      let x ← parseU32 a
      let y ← parseU32 b
      return f x y)).isSome ↔ Fits a ∧ Fits b := by
  rw [← parseU32_isSome ha, ← parseU32_isSome hb]
  cases parseU32 a with
  | error e =>
      constructor
      · intro h
        cases h
      · rintro ⟨⟨v, h⟩, -⟩
        cases h
  | ok x =>
      cases parseU32 b with
      | error e =>
          constructor
          · intro h
            cases h
          · rintro ⟨-, v, h⟩
            cases h
      | ok y => exact ⟨fun _ => ⟨⟨x, rfl⟩, y, rfl⟩, fun _ => rfl⟩

/-- What may stand behind the two numbers in front. -/
theorem SpecificShape.behind {major minor t : Text} {g : List (Nat × Text)}
    (h : SpecificShape d (major ++ '.' :: (minor ++ t)) g) (hmajor : Number d major)
    (hminor : Number d minor) (ht : Regex.Stops d.isDigit t) :
    Tail t ∨ minor = ['0'] ∧ ∃ rest, t = '-' :: rest := by
  generalize hwhole : major ++ '.' :: (minor ++ t) = whole at h
  cases h with
  | stage stage hmajor' hn htail =>
      obtain ⟨-, hbehind⟩ := major_inj hmajor hmajor' hwhole
      have hzero : ∀ c ∈ ['0'], d.isDigit c := by
        intro c hc
        rw [List.mem_singleton.mp hc]
        exact Digits.isDigit_of (by decide)
      obtain ⟨rfl, rfl⟩ := Regex.run_inj hminor.2 hzero ht
        (stops_cons (by decide) (by decide) _) hbehind
      exact .inr ⟨rfl, _, rfl⟩
  | minor hmajor' hminor' htail =>
      obtain ⟨-, hbehind⟩ := major_inj hmajor hmajor' hwhole
      obtain ⟨-, rfl⟩ := Regex.run_inj hminor.2 hminor'.2 ht htail.stops hbehind
      exact .inl htail

theorem specific_eq_none {t : Text} (h : ∀ g, ¬ SpecificShape d t g) :
    (Build.mk t).specific d = none := by
  have hnone : (specificRegex d).captures t = none := by
    cases hc : (specificRegex d).captures t with
    | none => rfl
    | some g => exact absurd (captures_specific.mp hc) (h g)
  rw [Build.specific, Specific.fromStr, hnone]
  rfl

/-- The specific version is found exactly when the parts are readable. -/
theorem specific_parts_isSome {p : BuildParts} (h : p.WellFormed d) :
    ((Build.mk p.text).specific d).isSome ↔ p.Readable := by
  obtain ⟨major, minor, patch, pre, hash⟩ := p
  cases patch with
  | some n =>
      -- a patch stands where a version that is selected has a stage or its end
      have hnone : ∀ g, ¬ SpecificShape d (major ++ '.' :: (minor ++ ('.' :: n ++
          (BuildParts.preText pre ++ '+' :: hash)))) g := by
        intro g hg
        rcases hg.behind h.major h.minor (stops_cons (by decide) (by decide) _) with
          (htail | ⟨rest, htail⟩) | ⟨-, rest, htail⟩
        · cases htail
        · exact absurd (List.cons.inj htail).1 (by decide)
        · exact absurd (List.cons.inj htail).1 (by decide)
      constructor
      · intro hsome
        rw [show (Build.mk (BuildParts.text ⟨major, minor, some n, pre, hash⟩)).specific d = none
          from specific_eq_none hnone] at hsome
        cases hsome
      · intro hread
        cases hread.patch
  | none =>
      cases pre with
      | none =>
          have hspecific := fromStr_minor h.major h.minor (.inr ⟨hash, rfl⟩ : Tail ('+' :: hash))
          show (Except.toOption (Specific.fromStr d (major ++ '.' :: (minor ++ '+' :: hash)))).isSome
            ↔ _
          rw [hspecific, both_isSome h.major h.minor]
          constructor
          · rintro ⟨hfits, hfits'⟩
            exact ⟨rfl, hfits, fun _ => hfits', fun x hx => (by cases hx)⟩
          · intro hread
            exact ⟨hread.major, hread.minor rfl⟩
      | some x =>
          obtain ⟨stage, n⟩ := x
          have hn := h.pre (stage, n) rfl
          -- a stage is only read behind the minor version `0`
          by_cases hzero : minor = ['0']
          · subst hzero
            have hspecific := fromStr_stage stage h.major hn (.inr ⟨hash, rfl⟩ : Tail ('+' :: hash))
            have htext : BuildParts.text ⟨major, ['0'], none, some (stage, n), hash⟩ =
                major ++ '.' :: '0' :: '-' :: (stage.name ++ '.' :: (n ++ '+' :: hash)) := by
              simp [BuildParts.text, BuildParts.behind, BuildParts.patchText, BuildParts.preText]
            rw [htext, Build.specific, hspecific, both_isSome h.major hn]
            constructor
            · rintro ⟨hfits, hfits'⟩
              exact
                { patch := rfl
                  major := hfits
                  minor := fun hpre => by cases hpre
                  pre := fun x hx => by
                    cases hx
                    exact ⟨rfl, hfits'⟩ }
            · intro hread
              exact ⟨hread.major, (hread.pre (stage, n) rfl).2⟩
          · have hnone : ∀ g, ¬ SpecificShape d (major ++ '.' :: (minor ++
                ('-' :: (stage.name ++ '.' :: n) ++ '+' :: hash))) g := by
              intro g hg
              rcases hg.behind h.major h.minor (stops_cons (by decide) (by decide) _) with
                (htail | ⟨rest, htail⟩) | ⟨hminor, -⟩
              · cases htail
              · exact absurd (List.cons.inj htail).1 (by decide)
              · exact hzero hminor
            constructor
            · intro hsome
              rw [show (Build.mk (BuildParts.text ⟨major, minor, none, some (stage, n), hash⟩)).specific
                d = none from specific_eq_none hnone] at hsome
              cases hsome
            · intro hread
              exact absurd (hread.pre (stage, n) rfl).1 hzero

/-! ## Packages of validated indexes -/

/-- A build version that the specific version is found in. -/
def Readable (d : Digits) (t : Text) : Prop :=
  ∃ p : BuildParts, p.WellFormed d ∧ p.text = t ∧ p.Readable

theorem specific_isSome_iff {t : Text} (h : (buildRegex d).isMatch t) :
    ((Build.mk t).specific d).isSome ↔ Readable d t := by
  obtain ⟨p, hp, rfl⟩ := isMatch_build.mp h
  rw [specific_parts_isSome hp]
  constructor
  · intro hread
    exact ⟨p, hp, rfl, hread⟩
  · rintro ⟨p', hp', htext, hread⟩
    rw [← specific_parts_isSome hp, ← htext]
    exact (specific_parts_isSome hp').mpr hread

/-- The parsers of the registry with the pattern of this module. -/
def buildCrates (d : Digits) (crates : Crates) : Crates :=
  { crates with matchesBuild := fun version => (buildRegex d).isMatch version.toList }

/-- A server or extension package of an index that was validated. -/
def FromIndex (crates : Crates) (package : TaggedPackage) : Prop :=
  ∃ (document : IndexDocument) (indexSource artifactBase : Source) (platform : String)
    (artifacts : List ValidatedArtifact) (identity : ArtifactIdentity),
    document.validate crates indexSource artifactBase platform = .ok artifacts ∧
    (.server identity package ∈ artifacts ∨ .extension identity package ∈ artifacts)

section Validation

variable {crates : Crates} {indexSource artifactBase : Source} {platform : String}
  {package : PackageData}

/-- The version that an artifact carries, where it is a build version. -/
def buildVersion : ValidatedArtifact → Option String
  | .server _ package => some package.version
  | .extension _ package => some package.version
  | .cli _ _ => none

/-- The records of the command line tool carry versions of another kind. -/
theorem record_matches {installref : InstallRef} {kind : PackageKind}
    {artifact : ValidatedArtifact} {version : String}
    (h : RecordOf crates artifactBase package installref kind artifact)
    (hversion : buildVersion artifact = some version) : crates.matchesBuild version := by
  cases h with
  | server hmatch hurl hhash =>
      cases hversion
      exact hmatch
  | cli => cases hversion
  | extension hname hslot hmatch hurl hhash =>
      cases hversion
      exact hmatch

theorem validatePackage_matches {artifact : ValidatedArtifact} {version : String}
    (h : validatePackage crates indexSource artifactBase platform package = .ok (some artifact))
    (hversion : buildVersion artifact = some version) : crates.matchesBuild version := by
  cases hkind : recognised package with
  | none =>
      rw [validatePackage_unknown hkind] at h
      cases h
  | some kind =>
      obtain ⟨-, hvalidates⟩ := (validatePackage_eq_ok hkind).mp h
      cases hvalidates with
      | record hsome hrecord => exact record_matches hrecord hversion

/-- The versions of server and extension packages have passed the pattern. -/
theorem validate_matches {document : IndexDocument} {artifacts : List ValidatedArtifact}
    {artifact : ValidatedArtifact} {version : String}
    (h : document.validate crates indexSource artifactBase platform = .ok artifacts)
    (hmem : artifact ∈ artifacts) (hversion : buildVersion artifact = some version) :
    crates.matchesBuild version := by
  rw [IndexDocument.validate, bind_eq_ok] at h
  obtain ⟨validated, hvalidated, h⟩ := h
  cases h
  obtain ⟨package, -, hpackage⟩ := exists_of_mapM_ok hvalidated (List.reduceOption_mem_iff.mp hmem)
  exact validatePackage_matches hpackage hversion

end Validation

theorem FromIndex.isMatch {crates : Crates} {package : TaggedPackage}
    (h : FromIndex (buildCrates d crates) package) :
    (buildRegex d).isMatch package.version.toList := by
  obtain ⟨document, indexSource, artifactBase, platform, artifacts, identity, hvalidate, hmem⟩ := h
  rcases hmem with hmem | hmem
  · exact validate_matches hvalidate hmem rfl
  · exact validate_matches hvalidate hmem rfl

/-! ## Comparing and selecting packages -/

/-- The order of `Catalog::server_packages`; versions are compared under one name. -/
def cmpPackages (d : Digits) (a b : ServerPackage) : Option Ordering :=
  match compare a.name b.name with
  | .eq => (Build.cmp d (packageBuild a) (packageBuild b)).map fun o =>
      (o.then (compare a.slot b.slot)).then (compare a.url b.url)
  | o => some o

/-- No way to compare, sort, filter or select the packages reaches the panic. -/
structure NeverPanics (d : Digits) (packages : List ServerPackage) : Prop where
  compares : ∀ {β : Type} (c : Comparing Build β),
    c.Within {b | b ∈ packages.map packageBuild} → (c.run (Build.cmp d)).isSome
  sorts : ∀ {β : Type} (c : Comparing ServerPackage β),
    c.Within {p | p ∈ packages} → (c.run (cmpPackages d)).isSome
  filters : ∀ (f : Filter), ∀ p ∈ packages, (f.matches d (packageBuild p)).isSome
  selects : ∀ query : Query, (selectServerPackageFromPackages d packages query).isSome

theorem cmp_isSome {a b : Build} (ha : (a.specific d).isSome) (hb : (b.specific d).isSome) :
    (Build.cmp d a b).isSome := by
  obtain ⟨x, hx⟩ := Option.isSome_iff_exists.mp ha
  obtain ⟨y, hy⟩ := Option.isSome_iff_exists.mp hb
  rw [Build.cmp, hx, hy]
  rfl

theorem cmpPackages_isSome {a b : ServerPackage} (ha : ((packageBuild a).specific d).isSome)
    (hb : ((packageBuild b).specific d).isSome) : (cmpPackages d a b).isSome := by
  rw [cmpPackages]
  split
  · rw [Option.isSome_map]
    exact cmp_isSome ha hb
  · rfl

theorem selectStep_isSome {query : Query} {pkg : ServerPackage}
    (h : ((packageBuild pkg).specific d).isSome) (best : Option (Specific × ServerPackage)) :
    (selectStep d query best pkg).isSome := by
  obtain ⟨ver, hver⟩ := Option.isSome_iff_exists.mp h
  cases hq : query.version with
  | some f =>
      rw [selectStep_eq hq hver]
      rfl
  | none =>
      simp only [selectStep, hq, hver]
      rfl

theorem select_isSome {query : Query} {packages : List ServerPackage}
    (h : ∀ p ∈ packages, ((packageBuild p).specific d).isSome) :
    (selectServerPackageFromPackages d packages query).isSome := by
  rw [selectServerPackageFromPackages, Option.isSome_map]
  have hrun : ∀ best, (packages.foldlM (selectStep d query) best).isSome := by
    induction packages with
    | nil => exact fun best => rfl
    | cons pkg packages ih =>
        intro best
        obtain ⟨next, hnext⟩ := Option.isSome_iff_exists.mp
          (selectStep_isSome (h pkg List.mem_cons_self) best)
        rw [List.foldlM_cons, hnext]
        exact ih (fun p hp => h p (List.mem_cons_of_mem _ hp)) next
  exact hrun none

theorem neverPanics_iff {packages : List ServerPackage} :
    NeverPanics d packages ↔ ∀ p ∈ packages, ((packageBuild p).specific d).isSome := by
  constructor
  · intro h p hp
    have hfilter := h.filters ⟨0, none, false⟩ p hp
    rwa [Filter.matches, Option.isSome_map] at hfilter
  · intro h
    have hbuild : ∀ b ∈ packages.map packageBuild, (b.specific d).isSome := by
      intro b hb
      obtain ⟨p, hp, rfl⟩ := List.mem_map.mp hb
      exact h p hp
    exact
      { compares := fun c hc => Comparing.run_isSome
          (fun a ha b hb => cmp_isSome (hbuild a ha) (hbuild b hb)) hc
        sorts := fun c hc => Comparing.run_isSome
          (fun a ha b hb => cmpPackages_isSome (h a ha) (h b hb)) hc
        filters := fun f p hp => by
          rw [Filter.matches, Option.isSome_map]
          exact h p hp
        selects := fun query => select_isSome h }

/-- **A build version that `BUILD` accepts has a specific version exactly when it is
readable, and packages of validated indexes are compared, sorted, filtered and selected
without a panic exactly when all their versions are.** -/
theorem specific_of_accepted_iff (d : Digits) (crates : Crates) :
    (∀ value b, Build.fromStr d value = .ok b → ((b.specific d).isSome ↔ Readable d value)) ∧
    ∀ packages : List ServerPackage, (∀ p ∈ packages, FromIndex (buildCrates d crates) p) →
      (NeverPanics d packages ↔ ∀ p ∈ packages, Readable d p.version.toList) := by
  constructor
  · intro value b h
    rw [Build.fromStr] at h
    split at h
    · next hmatch =>
      cases h
      exact specific_isSome_iff hmatch
    · cases h
  · intro packages h
    rw [neverPanics_iff]
    exact forall₂_congr fun p hp => specific_isSome_iff (h p hp).isMatch

/-- A build version with three numbers is accepted, and is not readable. -/
theorem not_specific_of_accepted : ¬ ∀ value b, Build.fromStr Digits.asciiOnly value = .ok b →
    (b.specific Digits.asciiOnly).isSome := by
  intro h
  have hsome := h "1.2.3+local".toList ⟨"1.2.3+local".toList⟩ (by decide)
  exact absurd hsome (by decide)

end GelCli.Versions
