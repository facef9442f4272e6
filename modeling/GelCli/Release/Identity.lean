import GelCli.Release.PullRequest

/-!
# Candidate identities

`CandidateIdentity` of `github_release.py`: what a staging run is told to build.
Its constructor takes whatever a JSON object held and checks it; a
`CandidateIdentity` carries the fact that its fields passed.
-/

namespace GelCli.Release

open GelCli.Foundation

/-! ## Versions of a line -/

/-- `stable_version` of `preview.py`. -/
def stableVersion (version : Text) (major : ℕ) : Except String Text := do
  require (1 ≤ major) s!"invalid release major: {major}"
  let shown := Json.reprText version
  let parsed ← expect (plainMatch version) s!"unsupported release base version: {shown}"
  let parsedMajor := (ofLex parsed).1
  require (parsedMajor = major)
    s!"stable version {shown} has major {parsedMajor}, expected {major}"
  return version

theorem stableVersion_eq_ok {version stable : Text} {major : ℕ} :
    stableVersion version major = .ok stable ↔
      stable = version ∧ 1 ≤ major ∧ ∃ v, plainMatch version = some v ∧ (ofLex v).1 = major := by
  constructor
  · intro h
    obtain ⟨hmajor, h⟩ := require_bind_eq_ok.mp h
    obtain ⟨v, hv, h⟩ := expect_bind_eq_ok.mp h
    obtain ⟨hfirst, h⟩ := require_bind_eq_ok.mp h
    cases h
    exact ⟨rfl, hmajor, v, hv, hfirst⟩
  · rintro ⟨rfl, hmajor, v, hv, hfirst⟩
    refine require_bind_eq_ok.mpr ⟨hmajor, expect_bind_eq_ok.mpr ⟨v, hv, ?_⟩⟩
    exact require_bind_eq_ok.mpr ⟨hfirst, rfl⟩

/-- `int(base.split(".", 1)[0])`. -/
def majorOf (base : Text) : ℕ := Decimal.value (base.takeWhile (· ≠ '.'))

/-! ## The fields -/

structure IdentityFields where
  line : Text
  prNumber : ℤ
  baseSha : Text
  sourceSha : Text
  sourceSnapshot : Text
  phase : Option Phase
  version : Text
  channel : Text
  buildSha : Text
deriving DecidableEq, Repr

/-- `_PHASE_LABELS` holds no text longer than its keys, so a phase is its name. -/
def phaseJson : Option Phase → Json
  | none => .null
  | some phase => .str phase.name

def stableChannel : Text := "stable".toList

def testingChannel : Text := "testing".toList

namespace IdentityFields

/-- The version of a candidate fits its line, its phase and its channel. -/
def Fits (f : IdentityFields) (major : ℕ) : Prop :=
  match f.phase with
  | none => stableVersion f.version major = .ok f.version ∧ f.channel = stableChannel ∧
      f.buildSha = f.sourceSha
  | some phase => ∃ m, previewMatch f.version = some m ∧ majorOf m.base = major ∧
      m.phase = phase ∧ f.channel = testingChannel

/-- What `__post_init__` checks. -/
structure Valid (f : IdentityFields) : Prop where
  number : 1 ≤ f.prNumber
  base : gitSha f.baseSha
  source : gitSha f.sourceSha
  build : gitSha f.buildSha
  snapshot : snapshot f.sourceSnapshot
  fits : ∃ major, lineMatch f.line = some major ∧ f.Fits major

end IdentityFields

/-- The arguments of the constructor, as they come from JSON. -/
structure IdentityArgs where
  line : Json
  prNumber : Json
  baseSha : Json
  sourceSha : Json
  sourceSnapshot : Json
  phase : Json
  version : Json
  channel : Json
  buildSha : Json

def IdentityFields.args (f : IdentityFields) : IdentityArgs where
  line := .str f.line
  prNumber := .num f.prNumber
  baseSha := .str f.baseSha
  sourceSha := .str f.sourceSha
  sourceSnapshot := .str f.sourceSnapshot
  phase := phaseJson f.phase
  version := .str f.version
  channel := .str f.channel
  buildSha := .str f.buildSha

theorem phaseJson_injective : Function.Injective phaseJson := by
  intro p q h
  cases p with
  | none =>
      cases q with
      | none => rfl
      | some q => cases h
  | some p =>
      cases q with
      | none => cases h
      | some q => rw [Phase.name_injective (Json.str.inj h)]

theorem args_injective : Function.Injective IdentityFields.args := by
  intro f g h
  cases f
  cases g
  simp only [IdentityFields.args, IdentityArgs.mk.injEq, Json.str.injEq, Json.num.injEq,
    phaseJson_injective.eq_iff] at h
  obtain ⟨rfl, rfl, rfl, rfl, rfl, rfl, rfl, rfl, rfl⟩ := h
  rfl

/-! ## `__post_init__` -/

/-- A build SHA that is `None` is the source SHA. -/
def readBuildSha (buildSha : Json) (sourceSha : Text) : Except String Text :=
  match buildSha with
  | .null => .ok sourceSha
  | value =>
      let shown := value.repr
      expect (value.str?.filter gitSha) s!"invalid build SHA {shown}"

def readStable (version channel : Json) (major : ℕ) (sourceSha buildSha : Text) :
    Except String (Text × Text) := do
  let shown := version.repr
  let text ← expect version.str? s!"unsupported release base version: {shown}"
  let stable ← stableVersion text major
  require (channel.str? = some stableChannel) "stable candidates must use the stable channel"
  require (buildSha = sourceSha) "stable candidate build SHA must equal source SHA"
  return (stable, stableChannel)

def readPreview (line : Text) (version channel phase : Json) (major : ℕ) :
    Except String (Phase × Text × Text) := do
  let shownPhase := phase.repr
  let active ← expect (phase.str?.bind Phase.ofName?) s!"unsupported candidate phase {shownPhase}"
  let shown := version.repr
  let text ← expect version.str? s!"unsupported preview version {shown}"
  let m ← expect (previewMatch text) s!"unsupported preview version {shown}"
  let lineText := String.ofList line
  let versionText := String.ofList text
  require (majorOf m.base = major)
    s!"line {lineText} major {major} does not match version {versionText}"
  require (m.phase = active) "candidate phase must match the version"
  require (channel.str? = some testingChannel) "preview candidates must use the testing channel"
  return (active, text, testingChannel)

/-- `CandidateIdentity.__post_init__`. -/
def readIdentity (a : IdentityArgs) : Except String IdentityFields := do
  let shownLine := a.line.repr
  let line ← expect a.line.str? s!"invalid release line {shownLine}"
  let major ← parseLine (.str line)
  let shownNumber := a.prNumber.repr
  let prNumber ← expect (a.prNumber.int?.filter (1 ≤ ·)) s!"invalid release PR number {shownNumber}"
  let shownBase := a.baseSha.repr
  let baseSha ← expect (a.baseSha.str?.filter gitSha) s!"invalid base SHA {shownBase}"
  let shownSource := a.sourceSha.repr
  let sourceSha ← expect (a.sourceSha.str?.filter gitSha) s!"invalid source SHA {shownSource}"
  let buildSha ← readBuildSha a.buildSha sourceSha
  let shownSnapshot := a.sourceSnapshot.repr
  let sourceSnapshot ← expect (a.sourceSnapshot.str?.filter snapshot)
    s!"invalid source snapshot {shownSnapshot}"
  match a.phase with
  | .null =>
      let (version, channel) ← readStable a.version a.channel major sourceSha buildSha
      return ⟨line, prNumber, baseSha, sourceSha, sourceSnapshot, none, version, channel, buildSha⟩
  | phase =>
      let (active, version, channel) ← readPreview line a.version a.channel phase major
      return ⟨line, prNumber, baseSha, sourceSha, sourceSnapshot, some active, version, channel,
        buildSha⟩

theorem filter_str_eq_some {value : Json} {p : Text → Bool} {t : Text} :
    value.str?.filter p = some t ↔ value = .str t ∧ p t := by
  rw [Option.filter_eq_some_iff, Json.str?_eq_some]

theorem readBuildSha_eq_ok {value : Json} {sourceSha buildSha : Text} :
    readBuildSha value sourceSha = .ok buildSha ↔
      value = .null ∧ buildSha = sourceSha ∨ value = .str buildSha ∧ gitSha buildSha := by
  unfold readBuildSha
  split
  · constructor
    · intro h
      cases h
      exact Or.inl ⟨rfl, rfl⟩
    · rintro (⟨-, rfl⟩ | ⟨h, -⟩)
      · rfl
      · cases h
  · next hne =>
    rw [expect_eq_ok, filter_str_eq_some]
    constructor
    · exact Or.inr
    · rintro (⟨rfl, -⟩ | h)
      · exact absurd rfl hne
      · exact h

theorem readStable_eq_ok {version channel : Json} {major : ℕ} {sourceSha buildSha v c : Text} :
    readStable version channel major sourceSha buildSha = .ok (v, c) ↔
      version = .str v ∧ stableVersion v major = .ok v ∧ channel = .str c ∧ c = stableChannel ∧
        buildSha = sourceSha := by
  constructor
  · intro h
    obtain ⟨text, htext, h⟩ := expect_bind_eq_ok.mp h
    obtain ⟨stable, hstable, h⟩ := bind_eq_ok.mp h
    obtain ⟨hchannel, h⟩ := require_bind_eq_ok.mp h
    obtain ⟨hbuild, h⟩ := require_bind_eq_ok.mp h
    cases h
    obtain ⟨rfl, -⟩ := stableVersion_eq_ok.mp hstable
    exact ⟨Json.str?_eq_some.mp htext, hstable, Json.str?_eq_some.mp hchannel, rfl, hbuild⟩
  · rintro ⟨rfl, hstable, rfl, rfl, hbuild⟩
    refine expect_bind_eq_ok.mpr ⟨v, rfl, bind_eq_ok.mpr ⟨v, hstable, ?_⟩⟩
    exact require_bind_eq_ok.mpr ⟨rfl, require_bind_eq_ok.mpr ⟨hbuild, rfl⟩⟩

theorem readPreview_eq_ok {line : Text} {version channel phase : Json} {major : ℕ} {p : Phase}
    {v c : Text} :
    readPreview line version channel phase major = .ok (p, v, c) ↔
      phase = .str p.name ∧ version = .str v ∧ channel = .str c ∧ c = testingChannel ∧
        ∃ m, previewMatch v = some m ∧ majorOf m.base = major ∧ m.phase = p := by
  constructor
  · intro h
    obtain ⟨active, hactive, h⟩ := expect_bind_eq_ok.mp h
    obtain ⟨text, htext, h⟩ := expect_bind_eq_ok.mp h
    obtain ⟨m, hm, h⟩ := expect_bind_eq_ok.mp h
    obtain ⟨hmajor, h⟩ := require_bind_eq_ok.mp h
    obtain ⟨hphase, h⟩ := require_bind_eq_ok.mp h
    obtain ⟨hchannel, h⟩ := require_bind_eq_ok.mp h
    cases h
    obtain ⟨name, hname, hof⟩ := Option.bind_eq_some_iff.mp hactive
    rw [Phase.ofName?_eq_some] at hof
    subst hof
    exact ⟨Json.str?_eq_some.mp hname, Json.str?_eq_some.mp htext, Json.str?_eq_some.mp hchannel,
      rfl, m, hm, hmajor, hphase⟩
  · rintro ⟨rfl, rfl, rfl, rfl, m, hm, hmajor, hphase⟩
    refine expect_bind_eq_ok.mpr ⟨p, Phase.ofName?_name p, expect_bind_eq_ok.mpr ⟨v, rfl, ?_⟩⟩
    refine expect_bind_eq_ok.mpr ⟨m, hm, require_bind_eq_ok.mpr ⟨hmajor, ?_⟩⟩
    exact require_bind_eq_ok.mpr ⟨hphase, require_bind_eq_ok.mpr ⟨rfl, rfl⟩⟩

theorem readIdentity_valid {a : IdentityArgs} {f : IdentityFields}
    (h : readIdentity a = .ok f) :
    f.Valid ∧ (a = f.args ∨ a = { f.args with buildSha := .null } ∧ f.buildSha = f.sourceSha) := by
  obtain ⟨line, hline, h⟩ := expect_bind_eq_ok.mp h
  obtain ⟨major, hmajor, h⟩ := bind_eq_ok.mp h
  obtain ⟨prNumber, hnumber, h⟩ := expect_bind_eq_ok.mp h
  obtain ⟨baseSha, hbase, h⟩ := expect_bind_eq_ok.mp h
  obtain ⟨sourceSha, hsource, h⟩ := expect_bind_eq_ok.mp h
  obtain ⟨buildSha, hbuild, h⟩ := bind_eq_ok.mp h
  obtain ⟨sourceSnapshot, hsnapshot, h⟩ := expect_bind_eq_ok.mp h
  obtain ⟨aLine, aNumber, aBase, aSource, aSnapshot, aPhase, aVersion, aChannel, aBuild⟩ := a
  simp only at hline hnumber hbase hsource hbuild hsnapshot h
  rw [Json.str?_eq_some] at hline
  rw [parseLine_str] at hmajor
  obtain ⟨hnumber, hpos⟩ := Option.filter_eq_some_iff.mp hnumber
  rw [Json.int?_eq_some] at hnumber
  rw [filter_str_eq_some] at hbase hsource hsnapshot
  rw [readBuildSha_eq_ok] at hbuild
  have hbuildSha : gitSha buildSha := by
    rcases hbuild with ⟨-, rfl⟩ | ⟨-, h⟩
    · exact hsource.2
    · exact h
  have hpos : 1 ≤ prNumber := of_decide_eq_true hpos
  split at h
  · obtain ⟨⟨version, channel⟩, hstable, h⟩ := bind_eq_ok.mp h
    cases h
    obtain ⟨rfl, hversion, rfl, rfl, heq⟩ := readStable_eq_ok.mp hstable
    refine ⟨⟨hpos, hbase.2, hsource.2, hbuildSha, hsnapshot.2, major, hmajor,
      hversion, rfl, heq⟩, ?_⟩
    rcases hbuild with ⟨hnull, -⟩ | ⟨hstr, -⟩
    · right
      simp [IdentityFields.args, phaseJson, hline, hnumber, hbase.1, hsource.1, hsnapshot.1, hnull,
        heq]
    · left
      simp [IdentityFields.args, phaseJson, hline, hnumber, hbase.1, hsource.1, hsnapshot.1, hstr]
  · obtain ⟨⟨active, version, channel⟩, hpreview, h⟩ := bind_eq_ok.mp h
    cases h
    obtain ⟨rfl, rfl, rfl, rfl, m, hm, hbaseMajor, hphase⟩ := readPreview_eq_ok.mp hpreview
    refine ⟨⟨hpos, hbase.2, hsource.2, hbuildSha, hsnapshot.2, major, hmajor, m, hm, hbaseMajor,
      hphase, rfl⟩, ?_⟩
    rcases hbuild with ⟨hnull, heq⟩ | ⟨hstr, -⟩
    · right
      simp [IdentityFields.args, phaseJson, hline, hnumber, hbase.1, hsource.1, hsnapshot.1, hnull,
        heq]
    · left
      simp [IdentityFields.args, phaseJson, hline, hnumber, hbase.1, hsource.1, hsnapshot.1, hstr]

/-- Valid fields are read back. -/
theorem readIdentity_args {f : IdentityFields} (h : f.Valid) {buildSha : Json}
    (hbuild : buildSha = .str f.buildSha ∨ buildSha = .null ∧ f.buildSha = f.sourceSha) :
    readIdentity { f.args with buildSha := buildSha } = .ok f := by
  obtain ⟨hpos, hbase, hsource, hbuildSha, hsnapshot, major, hmajor, hfits⟩ := h
  obtain ⟨line, prNumber, baseSha, sourceSha, sourceSnapshot, phase, version, channel, build⟩ := f
  refine expect_bind_eq_ok.mpr ⟨line, rfl, bind_eq_ok.mpr ⟨major, parseLine_str.mpr hmajor, ?_⟩⟩
  refine expect_bind_eq_ok.mpr ⟨prNumber,
    Option.filter_eq_some_iff.mpr ⟨rfl, decide_eq_true hpos⟩, ?_⟩
  refine expect_bind_eq_ok.mpr ⟨baseSha, filter_str_eq_some.mpr ⟨rfl, hbase⟩, ?_⟩
  refine expect_bind_eq_ok.mpr ⟨sourceSha, filter_str_eq_some.mpr ⟨rfl, hsource⟩, ?_⟩
  refine bind_eq_ok.mpr ⟨build, readBuildSha_eq_ok.mpr ?_, ?_⟩
  · rcases hbuild with rfl | hnull
    · exact Or.inr ⟨rfl, hbuildSha⟩
    · exact Or.inl hnull
  refine expect_bind_eq_ok.mpr ⟨sourceSnapshot, filter_str_eq_some.mpr ⟨rfl, hsnapshot⟩, ?_⟩
  cases phase with
  | none =>
      obtain ⟨hversion, hchannel, hsame⟩ := hfits
      exact bind_eq_ok.mpr ⟨(version, channel),
        readStable_eq_ok.mpr ⟨rfl, hversion, rfl, hchannel, hsame⟩, rfl⟩
  | some phase =>
      obtain ⟨m, hm, hbaseMajor, hphase, hchannel⟩ := hfits
      exact bind_eq_ok.mpr ⟨(phase, version, channel),
        readPreview_eq_ok.mpr ⟨rfl, rfl, rfl, hchannel, m, hm, hbaseMajor, hphase⟩, rfl⟩

/-! ## `CandidateIdentity` -/

structure CandidateIdentity extends IdentityFields where
  valid : toIdentityFields.Valid

namespace CandidateIdentity

@[ext] theorem ext {i j : CandidateIdentity} (h : i.toIdentityFields = j.toIdentityFields) :
    i = j := by
  cases i
  cases j
  cases h
  rfl

instance : DecidableEq CandidateIdentity := fun i j =>
  decidable_of_iff (i.toIdentityFields = j.toIdentityFields) ⟨ext, fun h => by rw [h]⟩

/-- The constructor. -/
def make (a : IdentityArgs) : Except String CandidateIdentity :=
  match h : readIdentity a with
  | .ok f => .ok ⟨f, (readIdentity_valid h).1⟩
  | .error e => .error e

theorem make_eq_ok {a : IdentityArgs} {i : CandidateIdentity} :
    make a = .ok i ↔ readIdentity a = .ok i.toIdentityFields := by
  unfold make
  split
  · next f h =>
    constructor
    · intro heq
      cases heq
      exact h
    · intro heq
      have hf : f = i.toIdentityFields := Except.ok.inj (h.symm.trans heq)
      exact congrArg Except.ok (ext hf)
  · next e h =>
    constructor
    · intro heq
      cases heq
    · intro heq
      cases h.symm.trans heq

/-- Building an identity from typed fields. -/
theorem make_args_eq_ok {f : IdentityFields} {i : CandidateIdentity} :
    make f.args = .ok i ↔ i.toIdentityFields = f ∧ f.Valid := by
  rw [make_eq_ok]
  constructor
  · intro h
    obtain ⟨hvalid, heq⟩ := readIdentity_valid h
    have hf : i.toIdentityFields = f := by
      rcases heq with heq | ⟨heq, -⟩
      · exact args_injective heq.symm
      · cases congrArg IdentityArgs.buildSha heq
    exact ⟨hf, hf ▸ hvalid⟩
  · rintro ⟨rfl, hvalid⟩
    exact readIdentity_args hvalid (Or.inl rfl)

def tag (i : CandidateIdentity) : Text := 'v' :: i.version

def asDict (i : CandidateIdentity) : Json :=
  .obj [("line", .str i.line), ("pr_number", .num i.prNumber), ("base_sha", .str i.baseSha),
    ("source_sha", .str i.sourceSha), ("source_snapshot", .str i.sourceSnapshot),
    ("phase", phaseJson i.phase), ("version", .str i.version), ("channel", .str i.channel),
    ("build_sha", .str i.buildSha)]

def required : List String :=
  ["line", "pr_number", "base_sha", "source_sha", "source_snapshot", "phase", "version", "channel"]

def fromDict (value : Json) : Except String CandidateIdentity := do
  require value.isObj "candidate identity must be a JSON object"
  let missing := required.filter fun name => (value.find? name).isNone
  let shown := ", ".intercalate missing
  require (missing = []) s!"candidate identity is missing fields: {shown}"
  make {
    line := value.get "line"
    prNumber := value.get "pr_number"
    baseSha := value.get "base_sha"
    sourceSha := value.get "source_sha"
    sourceSnapshot := value.get "source_snapshot"
    phase := value.get "phase"
    version := value.get "version"
    channel := value.get "channel"
    buildSha := value.get "build_sha" }

/-- **A serialized identity is read back.** -/
theorem fromDict_asDict (i : CandidateIdentity) : fromDict i.asDict = .ok i := by
  refine require_bind_eq_ok.mpr ⟨rfl, require_bind_eq_ok.mpr ⟨by rfl, make_eq_ok.mpr ?_⟩⟩
  exact readIdentity_args i.valid (Or.inl rfl)

end CandidateIdentity

end GelCli.Release
