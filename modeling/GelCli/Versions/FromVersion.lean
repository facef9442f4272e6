import Mathlib.Order.Bounds.Basic
import GelCli.Versions.Query

/-!
# Queries from an installed version

The query that an upgrade makes from the version of an instance. Each filter accepts
a least version, its base, so the query keeps the version when the base is that
version and the channel is the one the version belongs to.
-/

namespace GelCli.Versions

open GelCli.Foundation GelCli.Registry

/-! ## The base of a filter -/

def FilterMinor.version : FilterMinor → MinorVersion
  | .dev v => .dev v
  | .alpha v => .alpha v
  | .beta v => .beta v
  | .rc v => .rc v
  | .minor v => .minor v

def Filter.base (f : Filter) : Specific := ⟨f.major, (f.minor.getD (.minor 0)).version⟩

namespace Filter

theorem isMinor_iff {v : MinorVersion} {q : FilterMinor} : isMinor v q ↔ v = q.version := by
  cases v <;> cases q <;> simp [isMinor, FilterMinor.version]

theorem matchesMinor_version (first : Bool) (q : FilterMinor) :
    matchesMinor first q.version q := by
  cases q <;> cases first <;> simp [matchesMinor, isMinor, FilterMinor.version]

theorem version_le_of_matchesMinor {first : Bool} {v : MinorVersion} {q : FilterMinor}
    (h : matchesMinor first v q) : q.version ≤ v := by
  rw [MinorVersion.le_iff]
  cases v <;> cases q <;> cases first <;>
    simp_all [matchesMinor, isMinor, FilterMinor.version, MinorVersion.key,
      Prod.Lex.toLex_le_toLex, UInt32.le_iff_toNat_le]

/-- A filter accepts its base and nothing below it. -/
theorem isLeast_base (f : Filter) : IsLeast {s | f.matchesSpecific s} f.base := by
  constructor
  · show f.matchesSpecific f.base
    rw [matchesSpecific]
    split
    · simp [matchesExact, base, isMinor_iff]
    · simp [base, matchesMinor_version]
  · intro s hs
    have hs : f.matchesSpecific s := hs
    rw [matchesSpecific] at hs
    split at hs
    · rw [matchesExact, Bool.and_eq_true, beq_iff_eq, isMinor_iff] at hs
      rw [Specific.le_iff]
      exact .inr ⟨hs.1.symm, hs.2.symm.le⟩
    · rw [Bool.and_eq_true, beq_iff_eq] at hs
      rw [Specific.le_iff]
      exact .inr ⟨hs.1.symm, version_le_of_matchesMinor hs.2⟩

end Filter

/-! ## Queries -/

/-- The filter of `Query::from_version`. -/
def versionFilter (ver : Specific) : Filter :=
  ⟨ver.major, some (match ver.minor with
    | .dev v => .minor v
    | .alpha v => .alpha v
    | .beta v => .beta v
    | .rc v => .rc v
    | .minor v => .minor v), false⟩

theorem fromVersion_version (ver : Specific) :
    (Query.fromVersion ver).version = some (versionFilter ver) := by
  obtain ⟨major, minor⟩ := ver
  cases minor <;> rfl

theorem accepts_fromVersion {ver other : Specific} :
    (Query.fromVersion ver).accepts other = (versionFilter ver).matchesSpecific other := by
  rw [Query.accepts, fromVersion_version]

theorem le_base_versionFilter (ver : Specific) : ver ≤ (versionFilter ver).base := by
  obtain ⟨major, minor⟩ := ver
  rw [Specific.le_iff]
  refine .inr ⟨rfl, ?_⟩
  rw [MinorVersion.le_iff]
  cases minor with
  | dev v => simp [versionFilter, Filter.base, FilterMinor.version, MinorVersion.key,
      Prod.Lex.toLex_le_toLex]
  | alpha v => exact le_rfl
  | beta v => exact le_rfl
  | rc v => exact le_rfl
  | minor v => exact le_rfl

theorem base_versionFilter {ver : Specific} (h : ver.isNightly = false) :
    (versionFilter ver).base = ver := by
  obtain ⟨major, minor⟩ := ver
  cases minor with
  | dev v => cases h
  | alpha v => rfl
  | beta v => rfl
  | rc v => rfl
  | minor v => rfl

/-- The pre-releases of which `Query::from_version` and `Channel::from_version` disagree. -/
def Specific.isSecondPreview (ver : Specific) : Bool :=
  ver.major == 2 &&
    match ver.minor with
    | .alpha _ | .beta _ => true
    | _ => false

theorem channel_fromVersion (ver : Specific) :
    (Query.fromVersion ver).channel = Channel.fromVersion ver ↔ ver.isSecondPreview = false := by
  obtain ⟨major, minor⟩ := ver
  cases minor with
  | dev v => simp [Query.fromVersion, Channel.fromVersion, Specific.isSecondPreview]
  | minor v => simp [Query.fromVersion, Channel.fromVersion, Specific.isSecondPreview]
  | rc v => simp [Query.fromVersion, Channel.fromVersion, Specific.isSecondPreview]
  | alpha v =>
      by_cases hone : major = 1
      · subst hone
        simp [Query.fromVersion, Channel.fromVersion, Specific.isSecondPreview]
      · by_cases htwo : major = 2 <;>
          simp [Query.fromVersion, Channel.fromVersion, Specific.isSecondPreview, hone, htwo]
  | beta v =>
      by_cases hone : major = 1
      · subst hone
        simp [Query.fromVersion, Channel.fromVersion, Specific.isSecondPreview]
      · by_cases htwo : major = 2 <;>
          simp [Query.fromVersion, Channel.fromVersion, Specific.isSecondPreview, hone, htwo]

/-! ## Upgrades -/

/-- The query made from a version is for its channel, accepts it and nothing below it,
and selects a package that is not below it, one at all if the version is on offer. -/
structure KeepsVersion (d : Digits) (ver : Specific) : Prop where
  channel : (Query.fromVersion ver).channel = Channel.fromVersion ver
  accepts : (Query.fromVersion ver).accepts ver
  above : ∀ other, (Query.fromVersion ver).accepts other → ver ≤ other
  chosen : ∀ packages pkg other,
    selectServerPackageFromPackages d packages (Query.fromVersion ver) = some (some pkg) →
      (packageBuild pkg).specific d = some other → ver ≤ other
  offered : ∀ packages, (∃ pkg ∈ packages, (packageBuild pkg).specific d = some ver) →
    selectServerPackageFromPackages d packages (Query.fromVersion ver) ≠ some none

theorem le_of_accepts {ver other : Specific} (h : (Query.fromVersion ver).accepts other) :
    ver ≤ other := by
  rw [accepts_fromVersion] at h
  exact (le_base_versionFilter ver).trans ((versionFilter ver).isLeast_base.2 h)

theorem accepts_self_iff {ver : Specific} :
    (Query.fromVersion ver).accepts ver ↔ ver.isNightly = false := by
  constructor
  · intro h
    rw [accepts_fromVersion] at h
    have hbase : (versionFilter ver).base ≤ ver := (versionFilter ver).isLeast_base.2 h
    obtain ⟨major, minor⟩ := ver
    cases minor with
    | dev v =>
        -- the base is the minor release of the number
        rw [Specific.le_iff] at hbase
        rcases hbase with hlt | ⟨-, hle⟩
        · exact absurd hlt (lt_irrefl _)
        · rw [MinorVersion.le_iff] at hle
          simp [versionFilter, Filter.base, FilterMinor.version, MinorVersion.key,
            Prod.Lex.toLex_le_toLex] at hle
    | alpha v => rfl
    | beta v => rfl
    | rc v => rfl
    | minor v => rfl
  · intro h
    rw [accepts_fromVersion]
    have hmem := (versionFilter ver).isLeast_base.1
    rw [base_versionFilter h] at hmem
    exact hmem

theorem le_of_selected {d : Digits} {ver other : Specific} {packages : List ServerPackage}
    {pkg : ServerPackage}
    (h : selectServerPackageFromPackages d packages (Query.fromVersion ver) = some (some pkg))
    (hother : (packageBuild pkg).specific d = some other) : ver ≤ other := by
  obtain ⟨best, hbest, hchosen⟩ := best_of_select (fromVersion_version ver) h
  obtain ⟨x, hx, rfl⟩ := Option.map_eq_some_iff.mp hchosen.symm
  obtain ⟨-, hspecific, hmatch⟩ := hbest.passes x hx
  obtain rfl : x.1 = other := Option.some.inj (hspecific.symm.trans hother)
  exact le_of_accepts (accepts_fromVersion.trans hmatch)

theorem selected_of_offered {d : Digits} {ver : Specific} (h : ver.isNightly = false)
    {packages : List ServerPackage} {pkg : ServerPackage} (hpkg : pkg ∈ packages)
    (hver : (packageBuild pkg).specific d = some ver) :
    selectServerPackageFromPackages d packages (Query.fromVersion ver) ≠ some none := by
  intro hnone
  obtain ⟨best, hbest, hchosen⟩ := best_of_select (fromVersion_version ver) hnone
  have hpasses : Passes d (versionFilter ver) pkg ver :=
    ⟨hver, accepts_fromVersion.symm.trans (accepts_self_iff.mpr h)⟩
  obtain ⟨x, hx, -⟩ := hbest.above pkg hpkg ver hpasses
  rw [Option.mem_def.mp hx] at hchosen
  cases hchosen

/-- **An upgrade query keeps the version it is made from exactly when the version is
not nightly and no alpha or beta of the major version 2.** -/
theorem keepsVersion_iff (d : Digits) (ver : Specific) :
    KeepsVersion d ver ↔ ver.isNightly = false ∧ ver.isSecondPreview = false := by
  constructor
  · intro h
    exact ⟨accepts_self_iff.mp h.accepts, (channel_fromVersion ver).mp h.channel⟩
  · rintro ⟨hnightly, hpreview⟩
    exact
      { channel := (channel_fromVersion ver).mpr hpreview
        accepts := accepts_self_iff.mpr hnightly
        above := fun other => le_of_accepts
        chosen := fun packages pkg other => le_of_selected
        offered := fun packages ⟨pkg, hpkg, hver⟩ => selected_of_offered hnightly hpkg hver }

/-- A nightly instance is excluded by its own query. -/
theorem not_keepsVersion_nightly : ¬ KeepsVersion Digits.asciiOnly ⟨7, .dev 9000⟩ := by
  intro h
  exact absurd h.accepts (by decide)

end GelCli.Versions
