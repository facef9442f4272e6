import GelCli.Versions.ConfigValue

/-!
# The hint to an exact version

`print_version_hint` of `src/portable/ver.rs` suggests the filter of the query, marked as
exact. The mark does not survive without a minor version, and the filter is suggested
where it does not name the version that is being used.
-/

namespace GelCli.Versions

open GelCli.Foundation

/-- `Display` -/
def Specific.display (s : Specific) : Text :=
  Decimal.ofNat s.major.toNat ++ ['.'] ++
    match s.minor with
    | .minor m => Decimal.ofNat m.toNat
    | .alpha v => "0-alpha.".toList ++ Decimal.ofNat v.toNat
    | .beta v => "0-beta.".toList ++ Decimal.ofNat v.toNat
    | .rc v => "0-rc.".toList ++ Decimal.ofNat v.toNat
    | .dev v => "0-dev.".toList ++ Decimal.ofNat v.toNat

/-- The filter that `print_version_hint` suggests, if it says anything. -/
def versionHint (version : Specific) (q : Query) : Option Filter :=
  match q.version with
  | none => none
  | some filter => if !filter.matchesExact version then some filter.withExact else none

/-- What it says. -/
def versionHintText (emphasized : Text → Text) (version : Specific) (q : Query) : Option Text :=
  match q.version with
  | none => none
  | some filter =>
      (versionHint version q).map fun suggested =>
        "Using ".toList ++ emphasized version.display ++ " (matches `".toList ++ filter.display ++
          "`), use `".toList ++ suggested.display ++ "` for exact version".toList

variable {d : Digits} {f : Filter} {v : Specific}

theorem versionHint_of_not_matches {channel : Registry.Channel} (h : ¬ f.matchesExact v) :
    versionHint v ⟨channel, some f⟩ = some f.withExact := by
  show (if !f.matchesExact v then some f.withExact else none) = _
  rw [Bool.not_eq_true] at h
  rw [h]
  rfl

theorem versionHint_of_matches {channel : Registry.Channel} (h : f.matchesExact v) :
    versionHint v ⟨channel, some f⟩ = none := by
  show (if !f.matchesExact v then some f.withExact else none) = _
  rw [h]
  rfl

/-- The text of an exact filter is read back if there is a minor to be exact about. -/
theorem fromStr_withExact_iff :
    Filter.fromStr d f.withExact.display = .ok f.withExact ↔ f.minor.isSome :=
  ⟨fun h => (Filter.printable_of_fromStr h : f.withExact.Printable) rfl,
    fun h => Filter.fromStr_display fun _ => h⟩

/-- What is displayed means the same when it is typed, and so does what is suggested. -/
structure DisplaysItself (d : Digits) (f : Filter) (v : Specific) : Prop where
  displayed : Filter.fromStr d f.display = .ok f
  exact : Filter.fromStr d f.withExact.display = .ok f.withExact
  hint : ∀ channel suggested, versionHint v ⟨channel, some f⟩ = some suggested →
    ∃ g, Filter.fromStr d suggested.display = .ok g ∧ ∀ w, g.matchesSpecific w ↔ w = v

/-- **Filters mean the same when parsed** if and only if they have a minor version, for the
exact ones, and name the very version that is used, for there is no right hint. -/
theorem displaysItself_iff {value : Text} (h : Filter.fromStr d value = .ok f) (v : Specific) :
    DisplaysItself d f v ↔ f.minor.isSome ∧ f.matchesExact v := by
  constructor
  · intro hself
    have hminor := fromStr_withExact_iff.mp hself.exact
    refine ⟨hminor, ?_⟩
    by_contra hnot
    obtain ⟨g, hg, hmatches⟩ :=
      hself.hint .stable _ (versionHint_of_not_matches hnot)
    -- the filter that is suggested does not match the version
    obtain rfl := Except.ok.inj (hself.exact.symm.trans hg)
    exact hnot ((hmatches v).mpr rfl)
  · rintro ⟨hminor, hmatches⟩
    refine ⟨Filter.fromStr_display (Filter.printable_of_fromStr h),
      fromStr_withExact_iff.mpr hminor, fun channel suggested hhint => ?_⟩
    rw [versionHint_of_matches hmatches] at hhint
    cases hhint

/-- `=7.3` is displayed as it was typed. -/
theorem displaysItself_exact :
    DisplaysItself .asciiOnly ⟨7, some (.minor 3), true⟩ ⟨7, .minor 3⟩ := by
  have hparsed : Filter.fromStr .asciiOnly "=7.3".toList = .ok ⟨7, some (.minor 3), true⟩ :=
    Filter.fromStr_display (f := ⟨7, some (.minor 3), true⟩) fun _ => rfl
  exact (displaysItself_iff hparsed _).mpr ⟨rfl, rfl⟩

/-- For `7` and the version 7.3 the hint is `=7`, which is read as `7`. -/
theorem not_displaysItself_major :
    Filter.fromStr .asciiOnly "7".toList = .ok ⟨7, none, false⟩ ∧
      ¬ DisplaysItself .asciiOnly ⟨7, none, false⟩ ⟨7, .minor 3⟩ := by
  constructor
  · exact Filter.fromStr_display (f := ⟨7, none, false⟩) fun h => (by cases h)
  · intro h
    exact absurd (fromStr_withExact_iff.mp h.exact) (by decide)

end GelCli.Versions
