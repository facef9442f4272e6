import GelCli.Foundation.JsonDumps
import GelCli.Release.DraftShape

/-!
# Record files

`dump` and `load_bytes` of `candidate.py`, with the strict models of `models.py`: an object has
the fields of its model and no others. A number with a fraction or an exponent is no value of
any field, and is rejected as soon as it is read. The texts of pydantic's errors are not in the
source; here an error names the field.
-/

namespace GelCli.Release

open GelCli.Foundation
open GelCli.Foundation.JsonText (Layout)

/-- `json.loads` and `json.dumps`. -/
def jsonCodec : JsonCodec where
  loads t := expect (Json.loads t) "Expecting value"
  dumps := Json.dumps .line
  loads_dumps i := by
    have hapart : (bodyJson i).Apart := by
      cases hphase : i.phase <;> simp [bodyJson, Json.Apart, Json.ApartFields, phaseJson, hphase]
    have hloads := Json.loads_dumps .line hapart JsonText.blank_nil
    rw [List.append_nil] at hloads
    rw [hloads]
    rfl
  head_dumps _ := rfl

/-! ## Writing -/

def CandidateAsset.fields (a : CandidateAsset) : List (String × Json) :=
  [("id", .num a.id), ("name", .str a.name), ("size", .num a.size), ("sha256", .str a.sha256),
    ("blake2b512", .str a.blake2b512)]

def CandidateAsset.json (a : CandidateAsset) : Json := .obj a.fields

def WorkflowRun.fields (run : WorkflowRun) : List (String × Json) :=
  [("workflow", .str run.workflow), ("run_id", .num run.runId), ("run_attempt", .num run.runAttempt)]

def WorkflowRun.json (run : WorkflowRun) : Json := .obj run.fields

def AttestationRecord.fields (attestation : AttestationRecord) : List (String × Json) :=
  [("predicate_type", .str attestation.predicateType),
    ("subject_count", .num attestation.subjectCount)]

def AttestationRecord.json (attestation : AttestationRecord) : Json := .obj attestation.fields

/-- `SCHEMA_VERSION`. -/
def schemaVersion : ℤ := 2

def CandidateRecord.fields (record : CandidateRecord) : List (String × Json) :=
  [("schema_version", .num schemaVersion), ("line", .str record.line),
    ("pr_number", .num record.prNumber), ("phase", phaseJson record.phase),
    ("version", .str record.version), ("tag", .str record.tag),
    ("draft_release_id", .num record.draftReleaseId), ("source_sha", .str record.sourceSha),
    ("source_snapshot", .str record.sourceSnapshot), ("build_sha", .str record.buildSha),
    ("base_sha", .str record.baseSha), ("build_date", .str record.buildDate),
    ("workflow_runs", .arr (record.workflowRuns.map WorkflowRun.json)),
    ("attestation", record.attestation.json),
    ("assets", .arr (record.assets.map CandidateAsset.json))]

/-- `model_dump(mode="json")`. -/
def CandidateRecord.json (record : CandidateRecord) : Json := .obj record.fields

@[irreducible] def dump (record : CandidateRecord) : List UInt8 :=
  Text.utf8 (record.json.dumps (.indented 2) ++ ['\n'])

/-! ## Strict models -/

def objectKeys : Json → Option (List String)
  | .obj fields => some (fields.map Prod.fst)
  | _ => none

/-- `extra="forbid"`; no field has a default. -/
def strictModel (schema : List String) (value : Json) : Except String Unit := do
  let keys ← expect (objectKeys value) "not an object"
  keys.forM fun key => require (key ∈ schema) s!"{key}: extra field"
  schema.forM fun key => require (key ∈ keys) s!"{key}: missing field"

/-- `PositiveInt`. -/
def positiveInt (value : Json) (key : String) : Except String { n : ℤ // 0 < n } := do
  let n ← expect (value.get key).int? key
  if h : 0 < n then return ⟨n, h⟩ else throw key

/-- `Annotated[str, Field(...)]`. -/
def textField (p : Text → Prop) [DecidablePred p] (value : Json) (key : String) :
    Except String { t : Text // p t } := do
  let t ← expect (value.get key).str? key
  if h : p t then return ⟨t, h⟩ else throw key

def listField {α : Type} (read : Json → Except String α) (value : Json) (key : String) :
    Except String (List α) := do
  let items ← expect (value.get key).arr? key
  items.mapM read

/-- A check whose outcome the model keeps. -/
def ensure (p : Prop) [Decidable p] (e : String) : Except String (PLift p) :=
  if h : p then .ok ⟨h⟩ else .error e

def CandidateAsset.read (value : Json) : Except String CandidateAsset := do
  strictModel ["id", "name", "size", "sha256", "blake2b512"] value
  let id ← positiveInt value "id"
  let name ← textField (· ≠ []) value "name"
  let size ← positiveInt value "size"
  let sha256 ← textField (snapshot ·) value "sha256"
  let blake ← textField (Release.blake2b512 ·) value "blake2b512"
  return ⟨id, name, size, sha256, blake, id.2, name.2, size.2, sha256.2, blake.2⟩

def WorkflowRun.read (value : Json) : Except String WorkflowRun := do
  strictModel ["workflow", "run_id", "run_attempt"] value
  let workflow ← textField (· ≠ []) value "workflow"
  let runId ← positiveInt value "run_id"
  let runAttempt ← positiveInt value "run_attempt"
  return ⟨workflow, runId, runAttempt, workflow.2, runId.2, runAttempt.2⟩

def AttestationRecord.read (value : Json) : Except String AttestationRecord := do
  strictModel ["predicate_type", "subject_count"] value
  let predicateType ← textField (· ≠ []) value "predicate_type"
  let subjectCount ← positiveInt value "subject_count"
  return ⟨predicateType, subjectCount, predicateType.2, subjectCount.2⟩

/-- `Literal["alpha", "beta", "rc"] | None`. -/
def phaseField (value : Json) (key : String) : Except String (Option Phase) :=
  match value.get key with
  | .null => .ok none
  | field => do
      let phase ← expect (field.str?.bind Phase.ofName?) key
      return some phase

/-- What a phase says about the version and the commit that was built. -/
def checkPhase (version buildSha sourceSha : Text) : ∀ phase : Option Phase,
    Except String (PLift (match phase with
      | none => (plainMatch version).isSome ∧ buildSha = sourceSha
      | some phase => (previewMatch version).map PreviewMatch.phase = some phase ∧
          buildSha ≠ sourceSha))
  | none => do
      let ⟨stable⟩ ← ensure ((plainMatch version).isSome = true)
        "phase must match the prerelease version"
      let ⟨same⟩ ← ensure (buildSha = sourceSha)
        "stable candidate build_sha must equal source_sha"
      return ⟨stable, same⟩
  | some phase => do
      let ⟨preview⟩ ← ensure ((previewMatch version).map PreviewMatch.phase = some phase)
        "phase must match the prerelease version"
      let ⟨derived⟩ ← ensure (buildSha ≠ sourceSha)
        "preview candidate build_sha must differ from source_sha"
      return ⟨preview, derived⟩

def recordSchema : List String :=
  ["schema_version", "line", "pr_number", "phase", "version", "tag", "draft_release_id",
    "source_sha", "source_snapshot", "build_sha", "base_sha", "build_date", "workflow_runs",
    "attestation", "assets"]

/-- The fields, and then `validate_identity`. -/
def CandidateRecord.read (value : Json) : Except String CandidateRecord := do
  strictModel recordSchema value
  require ((value.get "schema_version").int? = some schemaVersion) "schema_version"
  let line ← textField (fun t => (lineMatch t).isSome = true) value "line"
  let prNumber ← positiveInt value "pr_number"
  let phase ← phaseField value "phase"
  let version ← textField
    (fun t => (plainMatch t).isSome = true ∨ (previewMatch t).isSome = true) value "version"
  let tag ← textField (2 ≤ ·.length) value "tag"
  let draftReleaseId ← positiveInt value "draft_release_id"
  let sourceSha ← textField (gitSha ·) value "source_sha"
  let sourceSnapshot ← textField (snapshot ·) value "source_snapshot"
  let buildSha ← textField (gitSha ·) value "build_sha"
  let baseSha ← textField (gitSha ·) value "base_sha"
  let buildDate ← textField (· ≠ []) value "build_date"
  let workflowRuns ← listField WorkflowRun.read value "workflow_runs"
  let attestation ← AttestationRecord.read (value.get "attestation")
  let assets ← listField CandidateAsset.read value "assets"
  let shownLine := String.ofList line.1
  let shownVersion := String.ofList version.1
  let lineMajor := (lineMatch line.1).getD 0
  let ⟨lineMajorEq⟩ ← ensure (lineMatch line = some (majorOf version))
    s!"line {shownLine} major {lineMajor} does not match version major {majorOf version.1}"
  let ⟨tagEq⟩ ← ensure (tag = 'v' :: version.1) s!"tag must be v{shownVersion}"
  let ⟨phaseFits⟩ ← checkPhase version buildSha sourceSha phase
  let ⟨assetNames⟩ ← ensure (assets.map CandidateAsset.name).Nodup
    "candidate asset names must be unique"
  let ⟨assetIds⟩ ← ensure (assets.map CandidateAsset.id).Nodup
    "candidate asset ids must be unique"
  let ⟨assetRecords⟩ ← ensure (previewRecordName ∉ assets.map CandidateAsset.name ∧
      candidatePath ∉ assets.map CandidateAsset.name)
    "candidate record must not include itself in assets"
  let ⟨subjectCount⟩ ← ensure (attestation.subjectCount = assets.length)
    "attestation subject_count must match asset count"
  return ⟨line, prNumber, phase, version, tag, draftReleaseId, sourceSha, sourceSnapshot, buildSha,
    baseSha, buildDate, workflowRuns, attestation, assets, prNumber.2, draftReleaseId.2,
    sourceSha.2, sourceSnapshot.2, buildSha.2, baseSha.2, buildDate.2, lineMajorEq, tagEq,
    phaseFits, assetNames, assetIds, assetRecords, subjectCount⟩

/-- `load_bytes`. -/
def loadBytes (bytes : List UInt8) : Except String CandidateRecord :=
  Except.mapError (fun error => s!"candidate record validation failed: {error}") do
    let text ← expect (Text.ofUtf8 bytes) "not UTF-8"
    let value ← expect (Json.loads text) "invalid JSON"
    CandidateRecord.read value

def recordFormat : RecordFormat := ⟨loadBytes, dump⟩

/-! ## What is accepted -/

theorem equal_phaseJson {value : Json} {phase : Option Phase} :
    Json.Equal value (phaseJson phase) ↔ value = phaseJson phase := by
  cases phase with
  | none => exact Json.Equal.null_iff
  | some phase => exact Json.Equal.str_iff

section Fields

variable {value : Json} {key : String}

@[simp] theorem ensure_eq_ok {p : Prop} [Decidable p] {e : String} {h : PLift p} :
    ensure p e = .ok h ↔ p := by
  by_cases hp : p
  · rw [ensure, dif_pos hp]
    exact ⟨fun _ => hp, fun _ => rfl⟩
  · rw [ensure, dif_neg hp]
    constructor
    · intro heq
      cases heq
    · exact fun h => absurd h hp

theorem positiveInt_eq_ok {n : { n : ℤ // 0 < n }} :
    positiveInt value key = .ok n ↔ value.get key = .num n.1 := by
  unfold positiveInt
  rw [expect_bind_eq_ok]
  constructor
  · rintro ⟨m, hm, hok⟩
    split at hok
    · cases hok
      exact Json.int?_eq_some.mp hm
    · cases hok
  · intro hget
    refine ⟨n.1, Json.int?_eq_some.mpr hget, ?_⟩
    rw [dif_pos n.2]
    rfl

theorem textField_eq_ok {p : Text → Prop} [DecidablePred p] {t : { t : Text // p t }} :
    textField p value key = .ok t ↔ value.get key = .str t.1 := by
  unfold textField
  rw [expect_bind_eq_ok]
  constructor
  · rintro ⟨u, hu, hok⟩
    split at hok
    · cases hok
      exact Json.str?_eq_some.mp hu
    · cases hok
  · intro hget
    refine ⟨t.1, Json.str?_eq_some.mpr hget, ?_⟩
    rw [dif_pos t.2]
    rfl

theorem listField_eq_ok {α : Type} {read : Json → Except String α} {as : List α} :
    listField read value key = .ok as ↔ ∃ items, value.get key = .arr items ∧
      List.Forall₂ (fun item a => read item = .ok a) items as := by
  unfold listField
  rw [expect_bind_eq_ok]
  simp only [Json.arr?_eq_some, mapM_eq_ok]

theorem phaseField_eq_ok {phase : Option Phase} :
    phaseField value key = .ok phase ↔ value.get key = phaseJson phase := by
  unfold phaseField
  split
  · next hnull =>
    rw [hnull]
    cases phase <;> simp [phaseJson]
  · next field hfield =>
    rw [expect_bind_eq_ok]
    constructor
    · rintro ⟨active, hactive, hok⟩
      cases hok
      obtain ⟨name, hname, hof⟩ := Option.bind_eq_some_iff.mp hactive
      rw [Json.str?_eq_some.mp hname, Phase.ofName?_eq_some.mp hof]
      rfl
    · intro hget
      cases phase with
      | none => exact absurd hget hfield
      | some active =>
          refine ⟨active, ?_, rfl⟩
          rw [hget]
          exact Phase.ofName?_name active

theorem strictModel_eq_ok (hvalue : value.Apart) {schema : List String} (hschema : schema.Nodup) :
    strictModel schema value = .ok ⟨⟩ ↔
      ∃ fields, value = .obj fields ∧ (fields.map Prod.fst).Perm schema := by
  unfold strictModel
  rw [expect_bind_eq_ok]
  constructor
  · rintro ⟨keys, hkeys, hok⟩
    obtain ⟨⟨⟩, hknown, hpresent⟩ := bind_eq_ok.mp hok
    cases value with
    | obj fields =>
        cases hkeys
        refine ⟨fields, rfl, (List.perm_ext_iff_of_nodup hvalue.1 hschema).mpr fun name => ?_⟩
        exact ⟨fun hname => require_eq_ok.mp (forM_eq_ok.mp hknown name hname),
          fun hname => require_eq_ok.mp (forM_eq_ok.mp hpresent name hname)⟩
    | _ => cases hkeys
  · rintro ⟨fields, rfl, hperm⟩
    refine ⟨fields.map Prod.fst, rfl, bind_eq_ok.mpr ⟨⟨⟩, ?_, ?_⟩⟩
    · exact forM_eq_ok.mpr fun name hname => require_eq_ok.mpr (hperm.subset hname)
    · exact forM_eq_ok.mpr fun name hname => require_eq_ok.mpr (hperm.symm.subset hname)

theorem listField_iff {α : Type} {read : Json → Except String α} {json : α → Json}
    (hread : ∀ item a, item.Apart → (read item = .ok a ↔ Json.Equal item (json a)))
    (hvalue : value.Apart) {as : List α} :
    listField read value key = .ok as ↔ Json.Equal (value.get key) (.arr (as.map json)) := by
  have hitems : ∀ items : List Json, (∀ item ∈ items, item.Apart) →
      (List.Forall₂ (fun item a => read item = .ok a) items as ↔
        List.Forall₂ Json.Equal items (as.map json)) := by
    intro items hapart
    rw [List.forall₂_map_right_iff]
    induction items generalizing as with
    | nil => rw [List.forall₂_nil_left_iff, List.forall₂_nil_left_iff]
    | cons item items ih =>
        obtain ⟨hitem, hrest⟩ := List.forall_mem_cons.mp hapart
        rw [List.forall₂_cons_left_iff, List.forall₂_cons_left_iff]
        simp only [hread item _ hitem, ih hrest]
  rw [listField_eq_ok, Json.Equal.arr_iff]
  refine exists_congr fun items => and_congr_right fun hget => hitems items ?_
  exact Json.apart_arr.mp (hget ▸ hvalue.get key)

variable {a : CandidateAsset} {run : WorkflowRun} {attestation : AttestationRecord}

theorem CandidateAsset.read_eq_ok (hvalue : value.Apart) :
    CandidateAsset.read value = .ok a ↔ Json.Equal value a.json := by
  have hschema : ["id", "name", "size", "sha256", "blake2b512"].Nodup := by decide
  unfold CandidateAsset.json
  rw [Json.Equal.obj_iff hvalue (show (a.fields.map Prod.fst).Nodup from hschema)]
  simp only [CandidateAsset.fields, List.forall_mem_cons, List.not_mem_nil, IsEmpty.forall_iff, implies_true, and_true,
    Json.Equal.num_iff, Json.Equal.str_iff]
  constructor
  · intro hok
    obtain ⟨⟨⟩, hmodel, hok⟩ := bind_eq_ok.mp hok
    obtain ⟨id, hid, hok⟩ := bind_eq_ok.mp hok
    obtain ⟨name, hname, hok⟩ := bind_eq_ok.mp hok
    obtain ⟨size, hsize, hok⟩ := bind_eq_ok.mp hok
    obtain ⟨sha256, hsha256, hok⟩ := bind_eq_ok.mp hok
    obtain ⟨blake, hblake, hok⟩ := bind_eq_ok.mp hok
    cases hok
    exact ⟨(strictModel_eq_ok hvalue hschema).mp hmodel, positiveInt_eq_ok.mp hid,
      textField_eq_ok.mp hname, positiveInt_eq_ok.mp hsize, textField_eq_ok.mp hsha256,
      textField_eq_ok.mp hblake⟩
  · rintro ⟨hmodel, hid, hname, hsize, hsha256, hblake⟩
    refine bind_eq_ok.mpr ⟨⟨⟩, (strictModel_eq_ok hvalue hschema).mpr hmodel, ?_⟩
    refine bind_eq_ok.mpr ⟨⟨a.id, a.id_pos⟩, positiveInt_eq_ok.mpr hid, ?_⟩
    refine bind_eq_ok.mpr ⟨⟨a.name, a.name_ne_nil⟩, textField_eq_ok.mpr hname, ?_⟩
    refine bind_eq_ok.mpr ⟨⟨a.size, a.size_pos⟩, positiveInt_eq_ok.mpr hsize, ?_⟩
    refine bind_eq_ok.mpr ⟨⟨a.sha256, a.sha256_hex⟩, textField_eq_ok.mpr hsha256, ?_⟩
    exact bind_eq_ok.mpr ⟨⟨a.blake2b512, a.blake2b512_hex⟩, textField_eq_ok.mpr hblake, rfl⟩

theorem WorkflowRun.read_eq_ok (hvalue : value.Apart) :
    WorkflowRun.read value = .ok run ↔ Json.Equal value run.json := by
  have hschema : ["workflow", "run_id", "run_attempt"].Nodup := by decide
  unfold WorkflowRun.json
  rw [Json.Equal.obj_iff hvalue (show (run.fields.map Prod.fst).Nodup from hschema)]
  simp only [WorkflowRun.fields, List.forall_mem_cons, List.not_mem_nil, IsEmpty.forall_iff, implies_true, and_true,
    Json.Equal.num_iff, Json.Equal.str_iff]
  constructor
  · intro hok
    obtain ⟨⟨⟩, hmodel, hok⟩ := bind_eq_ok.mp hok
    obtain ⟨workflow, hworkflow, hok⟩ := bind_eq_ok.mp hok
    obtain ⟨runId, hrunId, hok⟩ := bind_eq_ok.mp hok
    obtain ⟨runAttempt, hrunAttempt, hok⟩ := bind_eq_ok.mp hok
    cases hok
    exact ⟨(strictModel_eq_ok hvalue hschema).mp hmodel, textField_eq_ok.mp hworkflow,
      positiveInt_eq_ok.mp hrunId, positiveInt_eq_ok.mp hrunAttempt⟩
  · rintro ⟨hmodel, hworkflow, hrunId, hrunAttempt⟩
    refine bind_eq_ok.mpr ⟨⟨⟩, (strictModel_eq_ok hvalue hschema).mpr hmodel, ?_⟩
    refine bind_eq_ok.mpr
      ⟨⟨run.workflow, run.workflow_ne_nil⟩, textField_eq_ok.mpr hworkflow, ?_⟩
    refine bind_eq_ok.mpr ⟨⟨run.runId, run.runId_pos⟩, positiveInt_eq_ok.mpr hrunId, ?_⟩
    exact bind_eq_ok.mpr
      ⟨⟨run.runAttempt, run.runAttempt_pos⟩, positiveInt_eq_ok.mpr hrunAttempt, rfl⟩

theorem AttestationRecord.read_eq_ok (hvalue : value.Apart) :
    AttestationRecord.read value = .ok attestation ↔ Json.Equal value attestation.json := by
  have hschema : ["predicate_type", "subject_count"].Nodup := by decide
  unfold AttestationRecord.json
  rw [Json.Equal.obj_iff hvalue (show (attestation.fields.map Prod.fst).Nodup from hschema)]
  simp only [AttestationRecord.fields, List.forall_mem_cons, List.not_mem_nil, IsEmpty.forall_iff, implies_true, and_true,
    Json.Equal.num_iff, Json.Equal.str_iff]
  constructor
  · intro hok
    obtain ⟨⟨⟩, hmodel, hok⟩ := bind_eq_ok.mp hok
    obtain ⟨predicateType, htype, hok⟩ := bind_eq_ok.mp hok
    obtain ⟨subjectCount, hcount, hok⟩ := bind_eq_ok.mp hok
    cases hok
    exact ⟨(strictModel_eq_ok hvalue hschema).mp hmodel, textField_eq_ok.mp htype,
      positiveInt_eq_ok.mp hcount⟩
  · rintro ⟨hmodel, htype, hcount⟩
    refine bind_eq_ok.mpr ⟨⟨⟩, (strictModel_eq_ok hvalue hschema).mpr hmodel, ?_⟩
    refine bind_eq_ok.mpr
      ⟨⟨attestation.predicateType, attestation.predicateType_ne_nil⟩, textField_eq_ok.mpr htype, ?_⟩
    exact bind_eq_ok.mpr
      ⟨⟨attestation.subjectCount, attestation.subjectCount_pos⟩, positiveInt_eq_ok.mpr hcount, rfl⟩

theorem checkPhase_ok {version buildSha sourceSha : Text} {phase : Option Phase}
    (h : match phase with
      | none => (plainMatch version).isSome ∧ buildSha = sourceSha
      | some phase => (previewMatch version).map PreviewMatch.phase = some phase ∧
          buildSha ≠ sourceSha) : checkPhase version buildSha sourceSha phase = .ok ⟨h⟩ := by
  cases phase with
  | none =>
      refine bind_eq_ok.mpr ⟨⟨h.1⟩, ensure_eq_ok.mpr h.1, ?_⟩
      exact bind_eq_ok.mpr ⟨⟨h.2⟩, ensure_eq_ok.mpr h.2, rfl⟩
  | some phase =>
      refine bind_eq_ok.mpr ⟨⟨h.1⟩, ensure_eq_ok.mpr h.1, ?_⟩
      exact bind_eq_ok.mpr ⟨⟨h.2⟩, ensure_eq_ok.mpr h.2, rfl⟩

/-- The version of a record is of one of the two forms. -/
theorem CandidateRecord.version_form (record : CandidateRecord) :
    (plainMatch record.version).isSome = true ∨ (previewMatch record.version).isSome = true := by
  have hfits := record.phase_fits
  cases hphase : record.phase with
  | none =>
      simp only [hphase] at hfits
      exact Or.inl hfits.1
  | some phase =>
      simp only [hphase] at hfits
      obtain ⟨m, hm, -⟩ := Option.map_eq_some_iff.mp hfits.1
      exact Or.inr (by rw [hm]; rfl)

theorem CandidateRecord.tag_length (record : CandidateRecord) : 2 ≤ record.tag.length := by
  have hne : record.version ≠ [] := by
    intro hnil
    rcases record.version_form with h | h
    · rw [hnil] at h
      exact absurd h (by decide)
    · rw [hnil] at h
      exact absurd h (by decide)
  have hpos := List.length_pos_of_ne_nil hne
  rw [record.tag_eq, List.length_cons]
  omega

variable {record : CandidateRecord}

/-- **What is read as a record is what the record dumps to, in any order.** -/
theorem CandidateRecord.read_eq_ok (hvalue : value.Apart) :
    CandidateRecord.read value = .ok record ↔ Json.Equal value record.json := by
  have hschema : recordSchema.Nodup := by decide
  unfold CandidateRecord.json
  rw [Json.Equal.obj_iff hvalue (show (record.fields.map Prod.fst).Nodup from hschema)]
  simp only [CandidateRecord.fields, List.forall_mem_cons, List.not_mem_nil, IsEmpty.forall_iff,
    implies_true, and_true, Json.Equal.num_iff, Json.Equal.str_iff, equal_phaseJson]
  constructor
  · intro hok
    obtain ⟨⟨⟩, hmodel, hok⟩ := bind_eq_ok.mp hok
    obtain ⟨⟨⟩, hversion, hok⟩ := bind_eq_ok.mp hok
    obtain ⟨line, hline, hok⟩ := bind_eq_ok.mp hok
    obtain ⟨prNumber, hprNumber, hok⟩ := bind_eq_ok.mp hok
    obtain ⟨phase, hphase, hok⟩ := bind_eq_ok.mp hok
    obtain ⟨version, hform, hok⟩ := bind_eq_ok.mp hok
    obtain ⟨tag, htag, hok⟩ := bind_eq_ok.mp hok
    obtain ⟨draftReleaseId, hid, hok⟩ := bind_eq_ok.mp hok
    obtain ⟨sourceSha, hsource, hok⟩ := bind_eq_ok.mp hok
    obtain ⟨sourceSnapshot, hsnapshot, hok⟩ := bind_eq_ok.mp hok
    obtain ⟨buildSha, hbuild, hok⟩ := bind_eq_ok.mp hok
    obtain ⟨baseSha, hbase, hok⟩ := bind_eq_ok.mp hok
    obtain ⟨buildDate, hdate, hok⟩ := bind_eq_ok.mp hok
    obtain ⟨workflowRuns, hruns, hok⟩ := bind_eq_ok.mp hok
    obtain ⟨attestation, hattestation, hok⟩ := bind_eq_ok.mp hok
    obtain ⟨assets, hassets, hok⟩ := bind_eq_ok.mp hok
    obtain ⟨⟨lineMajor⟩, -, hok⟩ := bind_eq_ok.mp hok
    obtain ⟨⟨tagEq⟩, -, hok⟩ := bind_eq_ok.mp hok
    obtain ⟨⟨phaseFits⟩, -, hok⟩ := bind_eq_ok.mp hok
    obtain ⟨⟨assetNames⟩, -, hok⟩ := bind_eq_ok.mp hok
    obtain ⟨⟨assetIds⟩, -, hok⟩ := bind_eq_ok.mp hok
    obtain ⟨⟨assetRecords⟩, -, hok⟩ := bind_eq_ok.mp hok
    obtain ⟨⟨subjectCount⟩, -, hok⟩ := bind_eq_ok.mp hok
    cases hok
    exact ⟨(strictModel_eq_ok hvalue hschema).mp hmodel,
      Json.int?_eq_some.mp (require_eq_ok.mp hversion), textField_eq_ok.mp hline,
      positiveInt_eq_ok.mp hprNumber, phaseField_eq_ok.mp hphase, textField_eq_ok.mp hform,
      textField_eq_ok.mp htag, positiveInt_eq_ok.mp hid, textField_eq_ok.mp hsource,
      textField_eq_ok.mp hsnapshot, textField_eq_ok.mp hbuild, textField_eq_ok.mp hbase,
      textField_eq_ok.mp hdate, (listField_iff (fun _ _ => WorkflowRun.read_eq_ok) hvalue).mp hruns,
      (AttestationRecord.read_eq_ok (hvalue.get _)).mp hattestation,
      (listField_iff (fun _ _ => CandidateAsset.read_eq_ok) hvalue).mp hassets⟩
  · rintro ⟨hmodel, hversion, hline, hprNumber, hphase, hform, htag, hid, hsource, hsnapshot, hbuild,
      hbase, hdate, hruns, hattestation, hassets⟩
    refine bind_eq_ok.mpr ⟨⟨⟩, (strictModel_eq_ok hvalue hschema).mpr hmodel, ?_⟩
    refine bind_eq_ok.mpr ⟨⟨⟩, require_pos (Json.int?_eq_some.mpr hversion), ?_⟩
    have hlineMajor := record.line_major
    refine bind_eq_ok.mpr
      ⟨⟨record.line, by rw [hlineMajor]; rfl⟩, textField_eq_ok.mpr hline, ?_⟩
    refine bind_eq_ok.mpr
      ⟨⟨record.prNumber, record.prNumber_pos⟩, positiveInt_eq_ok.mpr hprNumber, ?_⟩
    refine bind_eq_ok.mpr ⟨record.phase, phaseField_eq_ok.mpr hphase, ?_⟩
    refine bind_eq_ok.mpr ⟨⟨record.version, record.version_form⟩, textField_eq_ok.mpr hform, ?_⟩
    refine bind_eq_ok.mpr ⟨⟨record.tag, record.tag_length⟩, textField_eq_ok.mpr htag, ?_⟩
    refine bind_eq_ok.mpr
      ⟨⟨record.draftReleaseId, record.draftReleaseId_pos⟩, positiveInt_eq_ok.mpr hid, ?_⟩
    refine bind_eq_ok.mpr
      ⟨⟨record.sourceSha, record.sourceSha_hex⟩, textField_eq_ok.mpr hsource, ?_⟩
    refine bind_eq_ok.mpr
      ⟨⟨record.sourceSnapshot, record.sourceSnapshot_hex⟩, textField_eq_ok.mpr hsnapshot, ?_⟩
    refine bind_eq_ok.mpr ⟨⟨record.buildSha, record.buildSha_hex⟩, textField_eq_ok.mpr hbuild, ?_⟩
    refine bind_eq_ok.mpr ⟨⟨record.baseSha, record.baseSha_hex⟩, textField_eq_ok.mpr hbase, ?_⟩
    refine bind_eq_ok.mpr
      ⟨⟨record.buildDate, record.buildDate_ne_nil⟩, textField_eq_ok.mpr hdate, ?_⟩
    refine bind_eq_ok.mpr ⟨record.workflowRuns,
      (listField_iff (fun _ _ => WorkflowRun.read_eq_ok) hvalue).mpr hruns, ?_⟩
    refine bind_eq_ok.mpr ⟨record.attestation,
      (AttestationRecord.read_eq_ok (hvalue.get _)).mpr hattestation, ?_⟩
    refine bind_eq_ok.mpr ⟨record.assets,
      (listField_iff (fun _ _ => CandidateAsset.read_eq_ok) hvalue).mpr hassets, ?_⟩
    refine bind_eq_ok.mpr ⟨⟨record.line_major⟩, ensure_eq_ok.mpr record.line_major, ?_⟩
    refine bind_eq_ok.mpr ⟨⟨record.tag_eq⟩, ensure_eq_ok.mpr record.tag_eq, ?_⟩
    refine bind_eq_ok.mpr ⟨⟨record.phase_fits⟩, checkPhase_ok record.phase_fits, ?_⟩
    refine bind_eq_ok.mpr ⟨⟨record.asset_names⟩, ensure_eq_ok.mpr record.asset_names, ?_⟩
    refine bind_eq_ok.mpr ⟨⟨record.asset_ids⟩, ensure_eq_ok.mpr record.asset_ids, ?_⟩
    refine bind_eq_ok.mpr ⟨⟨record.asset_records⟩, ensure_eq_ok.mpr record.asset_records, ?_⟩
    exact bind_eq_ok.mpr ⟨⟨record.subject_count⟩, ensure_eq_ok.mpr record.subject_count, rfl⟩

end Fields

/-! ## Round trips -/

section RoundTrip

variable {record : CandidateRecord}

theorem CandidateRecord.apart_json (record : CandidateRecord) : record.json.Apart := by
  have hschema : recordSchema.Nodup := by decide
  have hruns : ∀ run ∈ record.workflowRuns, run.json.Apart := by
    intro run _
    simp [WorkflowRun.json, WorkflowRun.fields, Json.apart_obj, Json.Apart]
  have hassets : ∀ a ∈ record.assets, a.json.Apart := by
    intro a _
    simp [CandidateAsset.json, CandidateAsset.fields, Json.apart_obj, Json.Apart]
  have hattestation : record.attestation.json.Apart := by
    simp [AttestationRecord.json, AttestationRecord.fields, Json.apart_obj, Json.Apart]
  have hphase : (phaseJson record.phase).Apart := by
    cases record.phase <;> trivial
  refine Json.apart_obj.mpr ⟨hschema, ?_⟩
  simp only [CandidateRecord.fields, List.forall_mem_cons, List.not_mem_nil, IsEmpty.forall_iff,
    implies_true, and_true, Json.apart_arr, List.forall_mem_map]
  exact ⟨trivial, trivial, trivial, hphase, trivial, trivial, trivial, trivial, trivial, trivial,
    trivial, trivial, hruns, hattestation, hassets⟩

theorem loads_dump (record : CandidateRecord) :
    Text.ofUtf8 (dump record) = some (record.json.dumps (.indented 2) ++ ['\n']) ∧
      Json.loads (record.json.dumps (.indented 2) ++ ['\n']) = some record.json := by
  unfold dump
  refine ⟨Text.ofUtf8_utf8 _, Json.loads_dumps _ record.apart_json fun c hc => ?_⟩
  rw [List.mem_singleton.mp hc]
  rfl

/-- A record that is read back as JSON. -/
def readJson (bytes : List UInt8) : Except String Json :=
  expect ((Text.ofUtf8 bytes).bind Json.loads) "invalid JSON"

theorem readJson_dump (record : CandidateRecord) :
    ∃ value, readJson (recordFormat.dump record) = .ok value ∧ value.isObj ∧
      value.get "phase" = phaseJson record.phase ∧
        value.get "source_snapshot" = .str record.sourceSnapshot := by
  obtain ⟨htext, hloads⟩ := loads_dump record
  have hdump : recordFormat.dump = dump := rfl
  refine ⟨record.json, ?_, rfl, rfl, rfl⟩
  rw [readJson, hdump, htext, Option.bind_some, hloads]
  rfl

theorem loadBytes_eq_ok (bytes : List UInt8) (record : CandidateRecord) :
    loadBytes bytes = .ok record ↔ ∃ text value, Text.ofUtf8 bytes = some text ∧
      Json.loads text = some value ∧ Json.Equal value record.json := by
  rw [loadBytes, mapError_eq_ok, expect_bind_eq_ok]
  refine exists_congr fun text => ?_
  rw [expect_bind_eq_ok, ← exists_and_left]
  refine exists_congr fun value => and_congr_right fun _ => and_congr_right fun hvalue => ?_
  exact CandidateRecord.read_eq_ok (Json.apart_of_loads hvalue)

end RoundTrip

end GelCli.Release
