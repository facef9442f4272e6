import GelCli.Registry.Index
import GelCli.Versions.Filter

/-!
# Version queries

`Query` and `Channel` of `src/portable/registry/types.rs`: what is asked of the
registry, how it is made from a filter or from an installed version, how it is written
to the configuration and read back, and which package is selected by it. The results
of these functions are never errors but for the texts that are no filter.
-/

namespace GelCli.Versions

open GelCli.Foundation GelCli.Registry

structure Query where
  channel : Channel
  version : Option Filter
deriving DecidableEq, Repr

def Specific.isNightly (s : Specific) : Bool :=
  match s.minor with
  | .dev _ => true
  | _ => false

/-! ## Channels -/

def Channel.fromVersion (ver : Specific) : Channel :=
  match ver.minor with
  | .dev _ => .nightly
  | .minor _ => .stable
  | .alpha _ | .beta _ | .rc _ => if ver.major = 1 ∨ ver.major = 2 then .stable else .testing

def Channel.fromFilter (ver : Filter) : Channel :=
  match ver.minor with
  | none => .stable
  | some (.minor _) => .stable
  | some (.alpha _) | some (.beta _) | some (.rc _) =>
      if ver.major = 1 ∨ ver.major = 2 then .stable else .testing
  | some (.dev _) => .nightly

namespace Query

/-! ## Making a query -/

/-- `From<Channel>` and the arm of `from_selector` for a channel. -/
def ofChannel (channel : Channel) : Query := ⟨channel, none⟩

def fromFilter (ver : Filter) : Query :=
  match ver.minor with
  | none => ⟨.stable, some ver⟩
  | some (.dev _) => ⟨.nightly, some ver⟩
  | some (.alpha _) | some (.beta _) | some (.rc _) =>
      if ver.major = 1 ∨ ver.major = 2 then ⟨.stable, some ver⟩ else ⟨.testing, some ver⟩
  | some (.minor _) => ⟨.stable, some ver⟩

/-- The minor of the filter for a nightly version is not a `Dev`, and only the arm of
`Rc` looks at the major version 2. -/
def fromVersion (ver : Specific) : Query :=
  match ver.minor with
  | .dev v => ⟨.nightly, some ⟨ver.major, some (.minor v), false⟩⟩
  | .alpha v =>
      ⟨if ver.major = 1 then .stable else .testing, some ⟨ver.major, some (.alpha v), false⟩⟩
  | .beta v =>
      ⟨if ver.major = 1 then .stable else .testing, some ⟨ver.major, some (.beta v), false⟩⟩
  | .rc v =>
      ⟨if ver.major = 1 ∨ ver.major = 2 then .stable else .testing,
        some ⟨ver.major, some (.rc v), false⟩⟩
  | .minor v => ⟨.stable, some ⟨ver.major, some (.minor v), false⟩⟩

/-! ## The configuration -/

def asConfigValue (q : Query) : Text :=
  match q.version with
  | some ver => ver.display
  | none => if q.channel = .nightly then "nightly".toList else ['*']

def fromStr (d : Digits) (s : Text) : Except String Query :=
  if s = ['*'] then .ok ⟨.stable, none⟩
  else if s = "nightly".toList then .ok ⟨.nightly, none⟩
  else (Filter.fromStr d s).map fun ver => ⟨Channel.fromFilter ver, some ver⟩

/-! ## Selecting a package -/

/-- What `matches` asks of the specific version of a build. -/
def accepts (q : Query) (ver : Specific) : Bool :=
  match q.version with
  | some queryVer => queryVer.matchesSpecific ver
  | none => q.channel = Channel.fromVersion ver

/-- `none` is the panic of `Build::specific`. -/
def «matches» (d : Digits) (q : Query) (ver : Build) : Option Bool :=
  (ver.specific d).map q.accepts

end Query

def packageBuild (package : ServerPackage) : Build := ⟨package.version.toList⟩

/-- What `Iterator::max_by_key` keeps: of equal keys the later. -/
def later {α : Type} (best : Option (Specific × α)) (y : Specific × α) : Specific × α :=
  match best with
  | some x => if y.1 < x.1 then x else y
  | none => y

/-- One package passes `filter` and `max_by_key`; `none` is the panic of
`Build::specific`. -/
def selectStep (d : Digits) (query : Query) (best : Option (Specific × ServerPackage))
    (pkg : ServerPackage) : Option (Option (Specific × ServerPackage)) := do
  let accepted ← match query.version with
    | some q => q.matches d (packageBuild pkg)
    | none => some true
  if accepted then
    let key ← (packageBuild pkg).specific d
    return some (later best (key, pkg))
  else return best

def selectServerPackageFromPackages (d : Digits) (packages : List ServerPackage) (query : Query) :
    Option (Option ServerPackage) :=
  (packages.foldlM (selectStep d query) none).map (Option.map Prod.snd)

/-! ## What is selected -/

section Selection

variable {d : Digits} {q : Query} {f : Filter}

/-- The version of a package that the filter lets pass. -/
def Passes (d : Digits) (f : Filter) (pkg : ServerPackage) (ver : Specific) : Prop :=
  (packageBuild pkg).specific d = some ver ∧ f.matchesSpecific ver

theorem selectStep_eq (hq : q.version = some f) {pkg : ServerPackage} {ver : Specific}
    (hver : (packageBuild pkg).specific d = some ver) (best : Option (Specific × ServerPackage)) :
    selectStep d q best pkg =
      some (if f.matchesSpecific ver then some (later best (ver, pkg)) else best) := by
  simp only [selectStep, hq, Filter.matches, hver, Option.map_some, Option.bind_eq_bind,
    Option.bind_some]
  split <;> rfl

theorem selectStep_panics (hq : q.version = some f) {pkg : ServerPackage}
    (hver : (packageBuild pkg).specific d = none) (best : Option (Specific × ServerPackage)) :
    selectStep d q best pkg = none := by
  simp only [selectStep, hq, Filter.matches, hver, Option.map_none, Option.bind_eq_bind,
    Option.bind_none]

theorem le_later {α : Type} {best : Option (Specific × α)} {y : Specific × α} :
    y.1 ≤ (later best y).1 ∧ ∀ x ∈ best, x.1 ≤ (later best y).1 := by
  cases best with
  | none => exact ⟨le_rfl, fun x hx => (by cases hx)⟩
  | some x =>
      rw [later]
      split
      · next hlt => exact ⟨hlt.le, fun z hz => by cases hz; exact le_rfl⟩
      · next hlt => exact ⟨le_rfl, fun z hz => by cases hz; exact not_lt.mp hlt⟩

theorem later_eq {α : Type} (best : Option (Specific × α)) (y : Specific × α) :
    later best y = y ∨ later best y ∈ best := by
  cases best with
  | none => exact .inl rfl
  | some x =>
      rw [later]
      split
      · exact .inr rfl
      · exact .inl rfl

/-- The best of the packages that pass: none of them is above it. -/
structure Best (d : Digits) (f : Filter) (packages : List ServerPackage)
    (best : Option (Specific × ServerPackage)) : Prop where
  passes : ∀ x ∈ best, x.2 ∈ packages ∧ Passes d f x.2 x.1
  above : ∀ pkg ∈ packages, ∀ ver, Passes d f pkg ver → ∃ x ∈ best, ver ≤ x.1

theorem Best.step (hq : q.version = some f) {packages : List ServerPackage}
    {best best' : Option (Specific × ServerPackage)} (h : Best d f packages best)
    {pkg : ServerPackage} (hstep : selectStep d q best pkg = some best') :
    Best d f (packages ++ [pkg]) best' := by
  cases hver : (packageBuild pkg).specific d with
  | none =>
      rw [selectStep_panics hq hver] at hstep
      cases hstep
  | some ver =>
      rw [selectStep_eq hq hver, Option.some.injEq] at hstep
      by_cases hmatch : f.matchesSpecific ver
      · rw [if_pos hmatch] at hstep
        subst hstep
        refine ⟨fun x hx => ?_, fun other hother ver' hpasses => ⟨_, rfl, ?_⟩⟩
        · obtain rfl := Option.some.inj hx
          rcases later_eq best (ver, pkg) with heq | hmem
          · rw [heq]
            exact ⟨by simp, hver, hmatch⟩
          · obtain ⟨hold, hpasses⟩ := h.passes _ hmem
            exact ⟨List.mem_append_left _ hold, hpasses⟩
        · rcases List.mem_append.mp hother with hother | hother
          · obtain ⟨x, hx, hle⟩ := h.above other hother ver' hpasses
            exact hle.trans (le_later.2 x hx)
          · obtain rfl := List.mem_singleton.mp hother
            have heq : ver = ver' := Option.some.inj (hver.symm.trans hpasses.1)
            exact heq ▸ (le_later (y := (ver, other))).1
      · rw [if_neg hmatch] at hstep
        subst hstep
        refine ⟨fun x hx => ?_, fun other hother ver' hpasses => ?_⟩
        · obtain ⟨hold, hpasses⟩ := h.passes x hx
          exact ⟨List.mem_append_left _ hold, hpasses⟩
        · rcases List.mem_append.mp hother with hother | hother
          · exact h.above other hother ver' hpasses
          · obtain rfl := List.mem_singleton.mp hother
            have heq : ver = ver' := Option.some.inj (hver.symm.trans hpasses.1)
            exact absurd (heq ▸ hpasses.2) hmatch

theorem Best.run (hq : q.version = some f) {packages seen : List ServerPackage}
    {best best' : Option (Specific × ServerPackage)} (h : Best d f seen best)
    (hrun : packages.foldlM (selectStep d q) best = some best') :
    Best d f (seen ++ packages) best' := by
  induction packages generalizing seen best with
  | nil =>
      rw [List.foldlM_nil] at hrun
      cases hrun
      rwa [List.append_nil]
  | cons pkg packages ih =>
      rw [List.foldlM_cons, Option.bind_eq_bind, Option.bind_eq_some_iff] at hrun
      obtain ⟨next, hstep, hrun⟩ := hrun
      rw [List.append_cons]
      exact ih (h.step hq hstep) hrun

/-- What is selected is the best package that passes the filter. -/
theorem best_of_select (hq : q.version = some f) {packages : List ServerPackage}
    {chosen : Option ServerPackage}
    (h : selectServerPackageFromPackages d packages q = some chosen) :
    ∃ best, Best d f packages best ∧ chosen = best.map Prod.snd := by
  obtain ⟨best, hrun, rfl⟩ := Option.map_eq_some_iff.mp h
  have hempty : Best d f [] none :=
    ⟨fun x hx => (by cases hx), fun pkg hpkg => (by cases hpkg)⟩
  exact ⟨best, hempty.run hq hrun, rfl⟩

end Selection

end GelCli.Versions
