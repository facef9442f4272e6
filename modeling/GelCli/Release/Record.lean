import GelCli.Release.Identity

/-!
# Candidate records

`CandidateRecord` of `models.py`: the record that names the assets of a draft. Its
fields are checked when the record is built. Reading and writing the JSON text is
pydantic's and stays a parameter (`RecordFormat`).
-/

namespace GelCli.Release

open GelCli.Foundation

/-- `^[0-9a-f]{128}$`. -/
def blake2b512 (t : Text) : Bool := t.length == 128 && t.all lowerHex

structure CandidateAsset where
  id : ℤ
  name : Text
  size : ℤ
  sha256 : Text
  blake2b512 : Text
  id_pos : 0 < id
  name_ne_nil : name ≠ []
  size_pos : 0 < size
  sha256_hex : snapshot sha256
  blake2b512_hex : GelCli.Release.blake2b512 blake2b512

structure WorkflowRun where
  workflow : Text
  runId : ℤ
  runAttempt : ℤ
  workflow_ne_nil : workflow ≠ []
  runId_pos : 0 < runId
  runAttempt_pos : 0 < runAttempt

structure AttestationRecord where
  predicateType : Text
  subjectCount : ℤ
  predicateType_ne_nil : predicateType ≠ []
  subjectCount_pos : 0 < subjectCount

/-- `PREVIEW_RECORD_NAME`. -/
def previewRecordName : Text := "gel-candidate.json".toList

/-- `CANDIDATE_PATH`. -/
def candidatePath : Text := "packaging/release-candidate.json".toList

structure CandidateRecord where
  line : Text
  prNumber : ℤ
  phase : Option Phase
  version : Text
  tag : Text
  draftReleaseId : ℤ
  sourceSha : Text
  sourceSnapshot : Text
  buildSha : Text
  baseSha : Text
  buildDate : Text
  workflowRuns : List WorkflowRun
  attestation : AttestationRecord
  assets : List CandidateAsset
  prNumber_pos : 0 < prNumber
  draftReleaseId_pos : 0 < draftReleaseId
  sourceSha_hex : gitSha sourceSha
  sourceSnapshot_hex : snapshot sourceSnapshot
  buildSha_hex : gitSha buildSha
  baseSha_hex : gitSha baseSha
  buildDate_ne_nil : buildDate ≠ []
  line_major : lineMatch line = some (majorOf version)
  tag_eq : tag = 'v' :: version
  /-- A stable record is built from its source, a preview from a derived commit. -/
  phase_fits :
    match phase with
    | none => (plainMatch version).isSome ∧ buildSha = sourceSha
    | some phase => (previewMatch version).map PreviewMatch.phase = some phase ∧
        buildSha ≠ sourceSha
  asset_names : (assets.map CandidateAsset.name).Nodup
  asset_ids : (assets.map CandidateAsset.id).Nodup
  asset_records : previewRecordName ∉ assets.map CandidateAsset.name ∧
    candidatePath ∉ assets.map CandidateAsset.name
  subject_count : attestation.subjectCount = assets.length

/-- Parsing with `model_validate_json` and writing with `dump`. -/
structure RecordFormat where
  loadBytes : List UInt8 → Except String CandidateRecord
  dump : CandidateRecord → List UInt8

/-! ## The identity of a record -/

theorem majorOf_plainText (v : Plain) : majorOf (plainText v) = (ofLex v).1 := by
  have htake : (plainText v).takeWhile (· ≠ '.') = Decimal.ofNat (ofLex v).1 := by
    rw [plainText, List.takeWhile_append_of_pos fun c hc => ?_]
    · simp
    · have hne : c ≠ '.' := fun h => dot_notMem_ofNat _ (h ▸ hc)
      exact decide_eq_true hne
  rw [majorOf, htake, Decimal.value_ofNat]

/-- What follows a plain version does not change its major. -/
theorem majorOf_plainText_append (v : Plain) (t : Text) :
    majorOf (plainText v ++ t) = majorOf (plainText v) := by
  have hdot : ∃ a b, plainText v = a ++ '.' :: b ∧ '.' ∉ a :=
    ⟨_, _, rfl, dot_notMem_ofNat _⟩
  obtain ⟨a, b, heq, ha⟩ := hdot
  have hpos : ∀ c ∈ a, decide (c ≠ '.') := fun c hc => decide_eq_true fun h => ha (h ▸ hc)
  rw [majorOf, majorOf, heq, List.append_assoc, List.takeWhile_append_of_pos hpos,
    List.takeWhile_append_of_pos hpos]
  simp

namespace CandidateRecord

/-- `_record_identity`. -/
def identityFields (record : CandidateRecord) : IdentityFields where
  line := record.line
  prNumber := record.prNumber
  baseSha := record.baseSha
  sourceSha := record.sourceSha
  sourceSnapshot := record.sourceSnapshot
  phase := record.phase
  version := record.version
  channel := if record.phase.isSome then testingChannel else stableChannel
  buildSha := record.buildSha

/-- **The identity of a record passes the identity's own checks.** -/
theorem identityFields_valid (record : CandidateRecord) : record.identityFields.Valid := by
  refine ⟨record.prNumber_pos, record.baseSha_hex, record.sourceSha_hex, record.buildSha_hex,
    record.sourceSnapshot_hex, majorOf record.version, record.line_major, ?_⟩
  have hfits := record.phase_fits
  have hmajor := lineMatch_pos record.line_major
  unfold IdentityFields.Fits identityFields
  cases hphase : record.phase with
  | none =>
      simp only [hphase] at hfits
      obtain ⟨v, hv⟩ := Option.isSome_iff_exists.mp hfits.1
      refine ⟨stableVersion_eq_ok.mpr ⟨rfl, hmajor, v, hv, ?_⟩, rfl, hfits.2⟩
      rw [plainMatch_eq_some.mp hv, majorOf_plainText]
  | some phase =>
      simp only [hphase] at hfits
      obtain ⟨m, hm, hphase⟩ := Option.map_eq_some_iff.mp hfits.1
      obtain ⟨hversion, ⟨v, hbase⟩, -⟩ := previewMatch_eq_some.mp hm
      refine ⟨m, hm, ?_, hphase, rfl⟩
      rw [hversion, previewText, hbase, majorOf_plainText_append]

def identity (record : CandidateRecord) : CandidateIdentity :=
  ⟨record.identityFields, record.identityFields_valid⟩

end CandidateRecord

end GelCli.Release
