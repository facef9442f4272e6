import GelCli.Foundation.Json
import GelCli.Foundation.Results
import GelCli.Release.Versions

/-!
# Release pull requests

`release_state.py`: the identity of a generated release pull request, read from the
payload that GitHub sends, and the phase its labels name. The workflows add the
prepared version and the source snapshot to the payload before they use it.
-/

namespace GelCli.Release

open GelCli.Foundation

/-! ## Lines and heads -/

def parseLine (base : Json) : Except String ℕ :=
  let shown := base.repr
  expect (base.str?.bind lineMatch) s!"invalid release line {shown}"

@[simp] theorem parseLine_str {line : Text} {major : ℕ} :
    parseLine (.str line) = .ok major ↔ lineMatch line = some major :=
  expect_eq_ok

/-- `expected_head`. -/
def expectedHead (major : ℕ) : Text :=
  "knope/release-v".toList ++ Decimal.ofNat major ++ ".x".toList

/-! ## Phase labels -/

def activeLabels (labels : List Text) : List Text :=
  labels.foldl (fun active label =>
    if (Phase.ofLabel? label).isSome ∧ label ∉ active then active ++ [label] else active) []

def phaseFromLabels (labels : List Text) : Except String (Option Phase) :=
  match activeLabels labels with
  | [] => .ok none
  | [label] => .ok (Phase.ofLabel? label)
  | active =>
      let shown := ", ".intercalate (active.map String.ofList)
      .error s!"multiple active phase labels: {shown}"

/-- A label is its name, or an object with a name. -/
def labelName (label : Json) : Option Text := label.str? <|> (label.get "name").str?

/-- `pr.get("labels", [])`. -/
def rawLabels (pr : Json) : Json := (pr.find? "labels").getD (.arr [])

def checkPhaseLabels (pr : Json) (number : ℤ) : Except String PUnit := do
  let raw ← expect (rawLabels pr).arr? s!"PR #{number} has invalid phase labels"
  let labels ← raw.mapM fun label =>
    expect (labelName label) s!"PR #{number} has invalid phase labels"
  let _ ← (phaseFromLabels labels).mapError fun error =>
    s!"PR #{number} has invalid phase labels: {error}"
  return ⟨⟩

/-! ## `validate_pr` -/

structure ReleasePr where
  number : ℤ
  baseRef : Text
  baseSha : Text
  headRef : Text
  headSha : Text
  repository : Text
  major : ℕ
deriving DecidableEq, Repr

/-- `_nested_repo`. -/
def nestedRepo (value : Json) : Option Text := (value.get "full_name").str?

/-- `_sha`. -/
def readSha (value : Json) (label : String) (number : ℤ) (baseRef headRef : Text) :
    Except String Text :=
  let base := Json.reprText baseRef
  let head := Json.reprText headRef
  let shown := value.repr
  expect (value.str?.filter gitSha) s!"PR #{number} has invalid {label} SHA for {base} -> {head}: {shown}"

def optionRepr : Option Text → String
  | some t => Json.reprText t
  | none => "None"

/-- `validate_pr`. -/
def validatePr (pr : Json) (repo : Text) : Except String ReleasePr := do
  require pr.isObj "release PR identity must be a JSON object"
  let trusted := Json.reprText repo
  require (repo ≠ []) s!"invalid trusted repository {trusted}"
  let shownNumber := (pr.get "number").repr
  let number ← expect ((pr.get "number").int?.filter (1 ≤ ·))
    s!"invalid release PR identity number {shownNumber}"
  let state := (pr.get "state").repr
  require ((pr.get "state").str? = some "open".toList) s!"PR #{number} is not open (state {state})"
  checkPhaseLabels pr number
  let base := pr.get "base"
  let head := pr.get "head"
  require (base.isObj ∧ head.isObj) s!"PR #{number} has incomplete release line identity"
  let shownBase := (base.get "ref").repr
  let shownHead := (head.get "ref").repr
  let baseRef ← expect (base.get "ref").str?
    s!"PR #{number} has invalid base release line {shownBase}"
  let headRef ← expect (head.get "ref").str?
    s!"PR #{number} has invalid generated head {shownHead}"
  let major ← (parseLine (.str baseRef)).mapError fun error =>
    s!"PR #{number} has invalid release line {shownBase}: {error}"
  let baseRepository := optionRepr (nestedRepo (base.get "repo"))
  require (nestedRepo (base.get "repo") = some repo)
    s!"PR #{number} release line {shownBase} belongs to repository {baseRepository}, expected {trusted}"
  let headRepository := optionRepr (nestedRepo (head.get "repo"))
  require (nestedRepo (head.get "repo") = some repo)
    s!"PR #{number} has a forked head repository {headRepository}; expected {trusted}"
  let expected := expectedHead major
  let shownExpected := Json.reprText expected
  require (headMatch headRef = some major ∧ headRef = expected)
    s!"PR #{number} release identity {shownBase} -> {shownHead} does not match expected generated head {shownExpected}"
  let baseSha ← readSha (base.get "sha") "base" number baseRef headRef
  let headSha ← readSha (head.get "sha") "head" number baseRef headRef
  return ⟨number, baseRef, baseSha, headRef, headSha, repo, major⟩

/-! ## What the workflows add to the payload -/

/-- `_labels`. -/
def labels (pr : Json) : Except String (List Text) := do
  let raw ← expect (rawLabels pr).arr? "live PR labels must be a list"
  raw.mapM fun label => expect (labelName label) "live PR labels must contain names"

/-- `_prepared_version`. -/
def preparedVersion (pr : Json) : Except String Text :=
  expect ((pr.get "prepared_version").str?.filter (· ≠ []))
    "live PR has no top-level string 'prepared_version'; enrich the PR JSON with the prepared Cargo version before using it as a candidate source"

/-- `_source_snapshot`. -/
def sourceSnapshot (pr : Json) : Except String Text :=
  expect ((pr.get "source_snapshot").str?.filter snapshot)
    "live PR has no top-level 'source_snapshot' holding a 64 hex-character meaningful-tree digest"

/-! ## What a validated pull request is -/

/-- **A validated pull request is what its payload says.** -/
theorem validatePr_eq_ok {pr : Json} {repo : Text} {p : ReleasePr} (h : validatePr pr repo = .ok p) :
    1 ≤ p.number ∧ lineMatch p.baseRef = some p.major ∧ p.headRef = expectedHead p.major ∧
      gitSha p.baseSha ∧ gitSha p.headSha ∧ p.repository = repo ∧
      (pr.get "head").get "sha" = .str p.headSha := by
  obtain ⟨-, h⟩ := require_bind_eq_ok.mp h
  obtain ⟨-, h⟩ := require_bind_eq_ok.mp h
  obtain ⟨number, hnumber, h⟩ := expect_bind_eq_ok.mp h
  obtain ⟨-, h⟩ := require_bind_eq_ok.mp h
  obtain ⟨_, -, h⟩ := bind_eq_ok.mp h
  obtain ⟨-, h⟩ := require_bind_eq_ok.mp h
  obtain ⟨baseRef, -, h⟩ := expect_bind_eq_ok.mp h
  obtain ⟨headRef, -, h⟩ := expect_bind_eq_ok.mp h
  obtain ⟨major, hmajor, h⟩ := bind_eq_ok.mp h
  obtain ⟨-, h⟩ := require_bind_eq_ok.mp h
  obtain ⟨-, h⟩ := require_bind_eq_ok.mp h
  obtain ⟨⟨-, hhead⟩, h⟩ := require_bind_eq_ok.mp h
  obtain ⟨baseSha, hbaseSha, h⟩ := expect_bind_eq_ok.mp h
  obtain ⟨headSha, hheadSha, h⟩ := expect_bind_eq_ok.mp h
  cases h
  obtain ⟨-, hnumber⟩ := Option.filter_eq_some_iff.mp hnumber
  obtain ⟨-, hbaseSha⟩ := Option.filter_eq_some_iff.mp hbaseSha
  obtain ⟨hsha, hheadSha⟩ := Option.filter_eq_some_iff.mp hheadSha
  exact ⟨of_decide_eq_true hnumber, parseLine_str.mp (mapError_eq_ok.mp hmajor), hhead, hbaseSha,
    hheadSha, rfl, Json.str?_eq_some.mp hsha⟩

end GelCli.Release
