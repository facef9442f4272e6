import GelCli.Versions.FromVersion

/-!
# What a filter matches goes on upwards

The three ways of matching follow from one another. A filter that matches a version also
matches the later ones of its major that are not nightly, except that before 1.0 every
pre-release is taken for a version of its own.
-/

namespace GelCli.Versions

def FilterMinor.isPrerelease : FilterMinor → Bool
  | .minor _ => false
  | .dev _ | .alpha _ | .beta _ | .rc _ => true

/-- A pre-release of the major version 1. -/
def Filter.namesFirstPreview (f : Filter) : Bool :=
  f.major == 1 && (f.minor.getD (.minor 0)).isPrerelease

namespace Filter

/-! ## The minor versions -/

theorem matchesMinor_of_isMinor {first : Bool} {v : MinorVersion} {q : FilterMinor}
    (h : isMinor v q) : matchesMinor first v q := by
  rw [isMinor_iff.mp h]
  exact matchesMinor_version first q

/-- Later minor versions are matched too. -/
theorem matchesMinor_mono {v w : MinorVersion} {q : FilterMinor} {major : UInt32}
    (h : matchesMinor false v q) (hw : (⟨major, w⟩ : Specific).isNightly = false) (hle : v ≤ w) :
    matchesMinor false w q := by
  rw [MinorVersion.le_iff] at hle
  cases w with
  | dev w => cases hw
  | minor w =>
      -- a stable version is below none but the later stable ones
      cases q with
      | minor q =>
          cases v <;> simp_all [matchesMinor, MinorVersion.key, Prod.Lex.toLex_le_toLex,
            UInt32.le_iff_toNat_le]
          omega
      | _ => rfl
  | alpha w =>
      cases v <;> cases q <;> simp_all [matchesMinor, MinorVersion.key, Prod.Lex.toLex_le_toLex,
        UInt32.le_iff_toNat_le]
      omega
  | beta w =>
      cases v <;> cases q <;> simp_all [matchesMinor, MinorVersion.key, Prod.Lex.toLex_le_toLex,
        UInt32.le_iff_toNat_le]
      omega
  | rc w =>
      cases v <;> cases q <;> simp_all [matchesMinor, MinorVersion.key, Prod.Lex.toLex_le_toLex,
        UInt32.le_iff_toNat_le]
      omega

theorem matchesMinor_minor (first : Bool) (v : MinorVersion) (q : UInt32) :
    matchesMinor first v (.minor q) = matchesMinor false v (.minor q) := by
  cases v <;> cases first <;> rfl

/-- Before 1.0 a pre-release is matched by itself only. -/
theorem matchesMinor_first {v : MinorVersion} {q : FilterMinor} (h : q.isPrerelease) :
    matchesMinor true v q = isMinor v q := by
  cases q <;> cases v <;> first | rfl | cases h

/-! ## Versions -/

variable {f : Filter} {v w : Specific}

theorem matchesSpecific_iff (hexact : f.exact = false) : f.matchesSpecific v ↔
    v.major = f.major ∧ matchesMinor (v.major == 1) v.minor (f.minor.getD (.minor 0)) := by
  rw [matchesSpecific, hexact, if_neg Bool.false_ne_true, Bool.and_eq_true, beq_iff_eq]

theorem matchesExact_iff :
    f.matchesExact v ↔ v.major = f.major ∧ isMinor v.minor (f.minor.getD (.minor 0)) := by
  rw [matchesExact, Bool.and_eq_true, beq_iff_eq]

theorem matchesSpecific_of_exact (h : f.matchesExact v) : f.matchesSpecific v := by
  cases hexact : f.exact with
  | true =>
      rw [matchesSpecific, hexact, if_pos rfl]
      exact h
  | false =>
      obtain ⟨hmajor, hminor⟩ := matchesExact_iff.mp h
      exact (matchesSpecific_iff hexact).mpr ⟨hmajor, matchesMinor_of_isMinor hminor⟩

theorem matchesLoose_of_specific (h : f.matchesSpecific v) : f.matchesLoose v := by
  cases hexact : f.exact with
  | true =>
      rw [matchesSpecific, hexact, if_pos rfl] at h
      rw [matchesLoose, hexact, if_pos rfl]
      exact h
  | false =>
      rw [matchesLoose, hexact, if_neg Bool.false_ne_true]
      split
      · exact beq_iff_eq.mpr ((matchesSpecific_iff hexact).mp h).1
      · exact h

theorem le_minor (hle : v ≤ w) (hmajor : w.major = v.major) : v.minor ≤ w.minor := by
  rcases Specific.le_iff.mp hle with hlt | ⟨-, hminor⟩
  · rw [hmajor] at hlt
    exact absurd hlt (Nat.lt_irrefl _)
  · exact hminor

/-- **Later versions of the major are matched too**, if they are not nightly. -/
theorem matchesSpecific_mono (hexact : f.exact = false) (hfirst : f.namesFirstPreview = false)
    (h : f.matchesSpecific v) (hmajor : w.major = v.major) (hw : w.isNightly = false)
    (hle : v ≤ w) : f.matchesSpecific w := by
  obtain ⟨hv, hminor⟩ := (matchesSpecific_iff hexact).mp h
  refine (matchesSpecific_iff hexact).mpr ⟨hmajor.trans hv, ?_⟩
  rw [hmajor]
  -- the major version counts for pre-releases only
  have hfalse : ∀ u : MinorVersion, matchesMinor (v.major == 1) u (f.minor.getD (.minor 0)) =
      matchesMinor false u (f.minor.getD (.minor 0)) := by
    intro u
    rw [namesFirstPreview, ← hv] at hfirst
    cases hone : v.major == 1 with
    | false => rfl
    | true =>
        rw [hone, Bool.true_and] at hfirst
        generalize f.minor.getD (.minor 0) = q at hfirst ⊢
        cases q with
        | minor q => exact matchesMinor_minor true u q
        | _ => cases hfirst
  rw [hfalse] at hminor ⊢
  exact matchesMinor_mono hminor hw (le_minor hle hmajor)

/-- **A pre-release of the major 1 matches only itself.** -/
theorem matchesSpecific_first (hexact : f.exact = false) (hfirst : f.namesFirstPreview) :
    f.matchesSpecific w ↔ f.matchesExact w := by
  rw [namesFirstPreview, Bool.and_eq_true, beq_iff_eq] at hfirst
  rw [matchesSpecific_iff hexact, matchesExact_iff]
  refine and_congr_right fun hmajor => ?_
  have hone : (w.major == 1) = true := by rw [hmajor, hfirst.1]; rfl
  rw [hone, matchesMinor_first hfirst.2]

end Filter

/-- **Filters are consistent and upward closed.** So the greatest of the candidates, where
it is not nightly, is among those that a filter for their major matches as soon as any is. -/
theorem filter_upwardClosed (f : Filter) :
    (∀ v, (f.matchesExact v → f.matchesSpecific v) ∧ (f.matchesSpecific v → f.matchesLoose v)) ∧
    (f.exact = false → f.namesFirstPreview = false → ∀ v w, f.matchesSpecific v →
      w.major = v.major → w.isNightly = false → v ≤ w → f.matchesSpecific w) ∧
    (f.exact = false → f.namesFirstPreview → ∀ w, f.matchesSpecific w ↔ f.matchesExact w) ∧
    (f.exact = false → f.namesFirstPreview = false → ∀ (candidates : List Specific) (w : Specific),
      w ∈ candidates → w.major = f.major → w.isNightly = false →
        (∀ u ∈ candidates, u.major = f.major → u ≤ w) →
          (∃ v ∈ candidates, f.matchesSpecific v) → f.matchesSpecific w) := by
  refine ⟨fun v => ⟨Filter.matchesSpecific_of_exact, Filter.matchesLoose_of_specific⟩,
    fun hexact hfirst v w => Filter.matchesSpecific_mono hexact hfirst,
    fun hexact hfirst w => Filter.matchesSpecific_first hexact hfirst, ?_⟩
  rintro hexact hfirst candidates w - hmajor hw hgreatest ⟨v, hmem, hv⟩
  have hvmajor := ((Filter.matchesSpecific_iff hexact).mp hv).1
  exact Filter.matchesSpecific_mono hexact hfirst hv (hmajor.trans hvmajor.symm) hw
    (hgreatest v hmem hvmajor)

example : (⟨7, some (.rc 2), false⟩ : Filter).matchesSpecific ⟨7, .minor 0⟩ = true := by decide

end GelCli.Versions
