import GelCli.Release.Resolve

/-!
# The fixed point of stable staging

Staging commits the record of a stable candidate on top of the source it was
resolved at. At that head `resolve_candidate` finds the record and asks for nothing
more; where it finds nothing to do, the head carries such a record.
-/

namespace GelCli.Release

open GelCli.Foundation

section FixedPoint

variable {repo : Repository} {format : RecordFormat} {sha256 : List UInt8 → Text}

/-! ## Release pull requests without a phase label -/

/-- The live pull request is the requested one, has no phase label, and carries the
version and the snapshot of its head that the workflow added. -/
structure StableAt (repo : Repository) (sha256 : List UInt8 → Text) (pr : ReleasePr)
    (livePr : Json) (live : ReleasePr) (version digest : Text) : Prop where
  requested : liveRequested pr livePr = .ok live
  phase : (labels livePr >>= phaseFromLabels) = .ok none
  version : preparedVersion livePr = .ok version
  snapshot : sourceSnapshot livePr = .ok digest
  digest : meaningfulTree repo sha256 live.headSha = .ok digest

/-- **A resolution without a phase label.** -/
theorem resolveCandidate_stable {pr : ReleasePr} {livePr : Json} {tags : List Text}
    {releases : List Json} {r : Option CandidateIdentity}
    (hphase : (labels livePr >>= phaseFromLabels) = .ok none) :
    resolveCandidate repo format pr livePr tags releases = .ok r ↔
      ∃ live version digest published, liveRequested pr livePr = .ok live ∧
        preparedVersion livePr = .ok version ∧ sourceSnapshot livePr = .ok digest ∧
        stableVersion version live.major = .ok version ∧
        publishedSnapshots releases = .ok published ∧
        resolveStable repo format live digest version livePr releases = .ok r := by
  obtain ⟨names, hnames, hphase⟩ := bind_eq_ok.mp hphase
  rw [resolveCandidate_eq_ok]
  constructor
  · rintro ⟨live, version, digest, names', phase, stable, published, hlive, hversion, hdigest,
      hnames', hphase', hstable, hpublished, h⟩
    cases hnames.symm.trans hnames'
    cases hphase.symm.trans hphase'
    obtain ⟨rfl, -⟩ := stableVersion_eq_ok.mp hstable
    exact ⟨live, stable, digest, published, hlive, hversion, hdigest, hstable, hpublished, h⟩
  · rintro ⟨live, version, digest, published, hlive, hversion, hdigest, hstable, hpublished, h⟩
    exact ⟨live, version, digest, names, none, version, published, hlive, hversion, hdigest,
      hnames, hphase, hstable, hpublished, h⟩

/-! ## The head after staging -/

/-- The record of the identity resolved at a source has been committed, as the only
change of one commit, on top of that source, and `livePr` is the same release pull
request at that commit. -/
def Staged (repo : Repository) (format : RecordFormat) (sha256 : List UInt8 → Text)
    (pr : ReleasePr) (livePr : Json) : Prop :=
  ∃ (prAtSource : ReleasePr) (liveAtSource : Json) (source head : ReleasePr)
    (version digest digest' : Text) (tags : List Text) (releases : List Json)
    (identity : CandidateIdentity) (record : CandidateRecord),
    StableAt repo sha256 prAtSource liveAtSource source version digest ∧
    resolveCandidate repo format prAtSource liveAtSource tags releases = .ok (some identity) ∧
    record.identityFields = identity.toIdentityFields ∧
    format.loadBytes (format.dump record) = .ok record ∧
    RecordSuccessor repo source.headSha head.headSha ∧
    gitShow repo head.headSha recordPath = some (format.dump record) ∧
    StableAt repo sha256 pr livePr head version digest' ∧
    head.baseRef = source.baseRef ∧ head.number = source.number ∧ head.baseSha = source.baseSha

/-- The head of `livePr` is the one commit on top of the source that its own record
names, changes nothing but the record, and the record has the line, the pull request,
the base, the snapshot and the version of `livePr`. -/
def Recorded (repo : Repository) (format : RecordFormat) (pr : ReleasePr) (livePr : Json) :
    Prop :=
  ∃ (head : ReleasePr) (bytes : List UInt8) (record : CandidateRecord),
    liveRequested pr livePr = .ok head ∧
    gitShow repo head.headSha recordPath = some bytes ∧ format.loadBytes bytes = .ok record ∧
    RecordSuccessor repo record.sourceSha head.headSha ∧
    record.line = head.baseRef ∧ record.prNumber = head.number ∧ record.baseSha = head.baseSha ∧
    sourceSnapshot livePr = .ok record.sourceSnapshot ∧
    preparedVersion livePr = .ok record.version

theorem stagedRecord_eq_ok {headSha : Text} {record : CandidateRecord} :
    stagedRecord repo format headSha = .ok record ↔
      ∃ bytes, gitShow repo headSha recordPath = some bytes ∧ format.loadBytes bytes = .ok record ∧
        record.phase = none ∧ record.buildSha = record.sourceSha ∧
        assertRecordSuccessor repo record.sourceSha headSha bytes = .ok ⟨⟩ := by
  constructor
  · intro h
    obtain ⟨bytes, hbytes, h⟩ := expect_bind_eq_ok.mp h
    obtain ⟨record', hload, h⟩ := bind_eq_ok.mp h
    obtain ⟨⟨hphase, hbuild⟩, h⟩ := require_bind_eq_ok.mp h
    obtain ⟨_, hassert, h⟩ := bind_eq_ok.mp h
    cases h
    exact ⟨bytes, hbytes, hload, hphase, hbuild, hassert⟩
  · rintro ⟨bytes, hbytes, hload, hphase, hbuild, hassert⟩
    refine expect_bind_eq_ok.mpr ⟨bytes, hbytes, bind_eq_ok.mpr ⟨record, hload, ?_⟩⟩
    refine require_bind_eq_ok.mpr ⟨⟨hphase, hbuild⟩, bind_eq_ok.mpr ⟨⟨⟩, hassert, rfl⟩⟩

theorem stableRecordStaged_iff {identity : CandidateIdentity} {livePr : Json} {headSha : Text}
    (hsha : (livePr.get "head").get "sha" = .str headSha) (hgit : gitSha headSha) :
    stableRecordStaged repo format identity livePr = true ↔
      ∃ record, stagedRecord repo format headSha = .ok record ∧
        record.line = identity.line ∧ record.prNumber = identity.prNumber ∧
        record.baseSha = identity.baseSha ∧ record.sourceSnapshot = identity.sourceSnapshot ∧
        record.version = identity.version := by
  have hhead : ((livePr.get "head").get "sha").str?.filter gitSha = some headSha :=
    filter_str_eq_some.mpr ⟨hsha, hgit⟩
  simp only [stableRecordStaged, hhead]
  cases stagedRecord repo format headSha with
  | error e => simp
  | ok record => simp

/-- **After staging, nothing is left to do**, whatever tags and releases there are, or
the releases cannot be read. -/
theorem Staged.resolveCandidate {pr : ReleasePr} {livePr : Json}
    (h : Staged repo format sha256 pr livePr) {tags : List Text} {releases : List Json}
    {published : List (Phase × Text)} (hpublished : publishedSnapshots releases = .ok published) :
    resolveCandidate repo format pr livePr tags releases = .ok none := by
  obtain ⟨prAtSource, liveAtSource, source, head, version, digest, digest', tags', releases',
    identity, record, hsource, hresolved, hrecord, hload, hcommit, hshow, hhead, hline, hnumber,
    hbase⟩ := h
  -- what the resolution at the source has found out
  obtain ⟨live, version', digest₀, published', hlive, hversion, hdigest, hstable, -, hr⟩ :=
    (resolveCandidate_stable hsource.phase).mp hresolved
  cases hsource.requested.symm.trans hlive
  cases hsource.version.symm.trans hversion
  cases hsource.snapshot.symm.trans hdigest
  obtain ⟨identity', hfields, hr⟩ := resolveStable_eq_ok.mp hr
  have hidentity : identity.toIdentityFields = stableFields source digest version := by
    split at hr
    · cases hr
    · obtain ⟨-, hr⟩ := hr
      cases hr
      exact hfields
  rw [hidentity] at hrecord
  -- the record commit has the snapshot of its source
  have hsnapshot : digest' = digest := by
    have := hhead.digest
    rw [hcommit.meaningfulTree_eq, hsource.digest] at this
    exact (Except.ok.inj this).symm
  subst hsnapshot
  obtain ⟨hvalid, -⟩ := liveRequested_eq_ok hhead.requested
  obtain ⟨-, hmajor, -, -, hsha, -, hheadSha⟩ := validatePr_eq_ok hvalid
  obtain ⟨hvalid', -⟩ := liveRequested_eq_ok hsource.requested
  obtain ⟨-, hmajor', -⟩ := validatePr_eq_ok hvalid'
  have hsame : head.major = source.major := by
    rw [hline, hmajor'] at hmajor
    exact (Option.some.inj hmajor).symm
  have hheadValid : (stableFields head digest' version).Valid := by
    obtain ⟨hpos, hbaseSha, -, -, hsnapshot, major, hlineMajor, hfits⟩ := hidentity ▸ identity.valid
    have hpos : 1 ≤ head.number := by
      rw [hnumber]
      exact hpos
    have hbaseSha : gitSha head.baseSha := by
      rw [hbase]
      exact hbaseSha
    have hlineMajor : lineMatch head.baseRef = some major := by
      rw [hline]
      exact hlineMajor
    exact ⟨hpos, hbaseSha, hsha, hsha, hsnapshot, major, hlineMajor, hfits.1, rfl, rfl⟩
  refine (resolveCandidate_stable hhead.phase).mpr ⟨head, version, digest', published,
    hhead.requested, hhead.version, hhead.snapshot, hsame ▸ hstable, hpublished, ?_⟩
  refine resolveStable_eq_ok.mpr ⟨⟨stableFields head digest' version, hheadValid⟩, rfl, ?_⟩
  rw [if_pos]
  refine (stableRecordStaged_iff hheadSha hsha).mpr ⟨record, stagedRecord_eq_ok.mpr
    ⟨_, hshow, hload, congrArg IdentityFields.phase hrecord, ?_, ?_⟩, ?_⟩
  · exact (congrArg IdentityFields.buildSha hrecord).trans
      (congrArg IdentityFields.sourceSha hrecord).symm
  · have hsourceSha : record.sourceSha = source.headSha := congrArg IdentityFields.sourceSha hrecord
    rw [hsourceSha]
    exact assertRecordSuccessor_eq_ok.mpr ⟨hcommit, hshow⟩
  · exact ⟨(congrArg IdentityFields.line hrecord).trans hline.symm,
      (congrArg IdentityFields.prNumber hrecord).trans hnumber.symm,
      (congrArg IdentityFields.baseSha hrecord).trans hbase.symm,
      congrArg IdentityFields.sourceSnapshot hrecord, congrArg IdentityFields.version hrecord⟩

/-! ## Heads without anything to do -/

/-- **Where there is nothing to do, the head carries its record.** -/
theorem recorded_of_resolveCandidate {pr : ReleasePr} {livePr : Json} {tags : List Text}
    {releases : List Json} (hphase : (labels livePr >>= phaseFromLabels) = .ok none)
    (h : resolveCandidate repo format pr livePr tags releases = .ok none) :
    Recorded repo format pr livePr := by
  obtain ⟨live, version, digest, published, hlive, hversion, hdigest, -, -, hr⟩ :=
    (resolveCandidate_stable hphase).mp h
  obtain ⟨identity, hfields, hr⟩ := resolveStable_eq_ok.mp hr
  split at hr
  · next hstaged =>
    obtain ⟨-, -, -, -, hsha, -, hheadSha⟩ := validatePr_eq_ok (liveRequested_eq_ok hlive).1
    obtain ⟨record, hrecord, hline, hnumber, hbase, hsnapshot, hrecordVersion⟩ :=
      (stableRecordStaged_iff hheadSha hsha).mp hstaged
    obtain ⟨bytes, hshow, hload, -, -, hassert⟩ := stagedRecord_eq_ok.mp hrecord
    rw [hfields] at hline hnumber hbase hsnapshot hrecordVersion
    refine ⟨live, bytes, record, hlive, hshow, hload, (assertRecordSuccessor_eq_ok.mp hassert).1,
      hline, hnumber, hbase, ?_, ?_⟩
    · rw [hdigest, hsnapshot]
      rfl
    · rw [hversion, hrecordVersion]
      rfl
  · obtain ⟨-, hr⟩ := hr
    cases hr

/-- **Stable staging reaches a fixed point**: the staged head resolves to nothing as
long as the published previews can be read, and only such a head does. -/
theorem resolveCandidate_fixedPoint :
    (∀ pr livePr, Staged repo format sha256 pr livePr →
      ∀ tags releases published, publishedSnapshots releases = .ok published →
        resolveCandidate repo format pr livePr tags releases = .ok none) ∧
    (∀ pr livePr, (labels livePr >>= phaseFromLabels) = .ok none →
      ¬ Recorded repo format pr livePr →
        ∀ tags releases, resolveCandidate repo format pr livePr tags releases ≠ .ok none) := by
  constructor
  · intro pr livePr h tags releases published hpublished
    exact h.resolveCandidate hpublished
  · intro pr livePr hphase hnot tags releases h
    exact hnot (recorded_of_resolveCandidate hphase h)

end FixedPoint

/-! ## A staged head -/

namespace Sample

def baseSha : Text := "e43f68aa150d9043b8f9ea1c31345260a2f44459".toList

def sourceSha : Text := "306122e22bdf4659fb9ae17d613ed6141777e9ab".toList

def headSha : Text := "d1f6b477efad33a06108e09fdaa60028f77ffea3".toList

def digest : Text :=
  "ab6242fa2ec74dec1197d7c345b0b2832fc019704ab010c498e22ab5f1c295ce".toList

def version : Text := "7.1.0".toList

def asset : CandidateAsset where
  id := 21
  name := "gel-registry.json".toList
  size := 2
  sha256 := "44136fa355b3678a1146ad16f7e8649e94fb4fc21fe77e8310c060f61caaff8a".toList
  blake2b512 :=
    ("9327a492264ecac0806b031b780241d86cabe38348fe49c4c5a610ee584cfbaa" ++
      "efd3fdffd1b1b54c9ee225820433a7f902c688b2e123181a56c73b9cbf9cd13f").toList
  id_pos := by decide
  name_ne_nil := by decide
  size_pos := by decide
  sha256_hex := by decide +kernel
  blake2b512_hex := by decide +kernel

def record : CandidateRecord where
  line := "release/v7.x".toList
  prNumber := 101
  phase := none
  version := version
  tag := "v7.1.0".toList
  draftReleaseId := 5
  sourceSha := sourceSha
  sourceSnapshot := digest
  buildSha := sourceSha
  baseSha := baseSha
  buildDate := "2026-01-01T00:00:00+00:00".toList
  workflowRuns := [⟨"release-candidate.yml".toList, 11, 1, by decide, by decide, by decide⟩]
  attestation := ⟨"https://slsa.dev/provenance/v1".toList, 1, by decide, by decide⟩
  assets := [asset]
  prNumber_pos := by decide
  draftReleaseId_pos := by decide
  sourceSha_hex := by decide +kernel
  sourceSnapshot_hex := by decide +kernel
  buildSha_hex := by decide +kernel
  baseSha_hex := by decide +kernel
  buildDate_ne_nil := by decide
  line_major := by decide +kernel
  tag_eq := by decide
  phase_fits := by decide +kernel
  asset_names := by decide
  asset_ids := by decide
  asset_records := by decide
  subject_count := by decide

/-- What is written for `record`. -/
def recordText : String := "\n".intercalate [
  "\x7b",
  "  \"schema_version\": 2,",
  "  \"line\": \"release/v7.x\",",
  "  \"pr_number\": 101,",
  "  \"phase\": null,",
  "  \"version\": \"7.1.0\",",
  "  \"tag\": \"v7.1.0\",",
  "  \"draft_release_id\": 5,",
  "  \"source_sha\": \"306122e22bdf4659fb9ae17d613ed6141777e9ab\",",
  "  \"source_snapshot\": \"ab6242fa2ec74dec1197d7c345b0b2832fc019704ab010c498e22ab5f1c295ce\",",
  "  \"build_sha\": \"306122e22bdf4659fb9ae17d613ed6141777e9ab\",",
  "  \"base_sha\": \"e43f68aa150d9043b8f9ea1c31345260a2f44459\",",
  "  \"build_date\": \"2026-01-01T00:00:00+00:00\",",
  "  \"workflow_runs\": [",
  "    \x7b",
  "      \"workflow\": \"release-candidate.yml\",",
  "      \"run_id\": 11,",
  "      \"run_attempt\": 1",
  "    \x7d",
  "  ],",
  "  \"attestation\": \x7b",
  "    \"predicate_type\": \"https://slsa.dev/provenance/v1\",",
  "    \"subject_count\": 1",
  "  \x7d,",
  "  \"assets\": [",
  "    \x7b",
  "      \"id\": 21,",
  "      \"name\": \"gel-registry.json\",",
  "      \"size\": 2,",
  "      \"sha256\": \"44136fa355b3678a1146ad16f7e8649e94fb4fc21fe77e8310c060f61caaff8a\",",
  "      \"blake2b512\": \"9327a492264ecac0806b031b780241d86cabe38348fe49c4c5a610ee584cfbaaefd3fdffd1b1b54c9ee225820433a7f902c688b2e123181a56c73b9cbf9cd13f\"",
  "    \x7d",
  "  ]",
  "\x7d", ""]

@[irreducible] def written : List UInt8 := Text.utf8 recordText.toList

def loadBytes (bytes : List UInt8) : Except String CandidateRecord :=
  if bytes = written then .ok record else .error "candidate record validation failed"

def format : RecordFormat := ⟨loadBytes, fun _ => written⟩

def file (path objectname : String) (h : path.toList ≠ [] ∧ '\x00' ∉ path.toList)
    (hhex : objectname.toList.all lowerHex) : TreeEntry where
  mode := "100644".toList
  objectname := objectname.toList
  path := path.toList
  mode_digits := plainMode_digits
  objectname_hex := by
    intro c hc
    have := List.all_eq_true.mp hhex c hc
    simpa [lowerHex] using this
  path_ne_nil := h.1
  path_no_nul := h.2

def readme : TreeEntry :=
  file "README.md" "753e297fcbf64436eb898cc8472624831ad24a49" (by decide) (by decide +kernel)

def recordFile : TreeEntry :=
  file "packaging/release-candidate.json" "ab0cf72efa6593fa4664f0e481c3bface5e85c66" (by decide)
    (by decide +kernel)

def sourceTree : Tree := ⟨[readme], List.pairwise_singleton _ _⟩

def headTree : Tree := ⟨[readme, recordFile], by decide +kernel⟩

def commit (rev : Text) : Option Commit :=
  if rev = sourceSha then some ⟨[baseSha], sourceTree⟩
  else if rev = headSha then some ⟨[sourceSha], headTree⟩
  else none

def blob (objectname : Text) : List UInt8 :=
  if objectname = recordFile.objectname then written else []

def repo : Repository where
  commit := commit
  blob := blob
  stderr := fun _ => "fatal: not a valid object name"

/-- SHA-256 on the text that is hashed here. -/
def sha256 (bytes : List UInt8) : Text :=
  if bytes = Text.utf8 (readme.record ++ ['\n']) then digest else []

/-- The pull request at a head, with what the workflow adds. -/
def livePr (sha : Text) : Json := .obj [
  ("number", .num 101), ("state", .str "open".toList), ("labels", .arr []),
  ("base", .obj [("ref", .str "release/v7.x".toList), ("sha", .str baseSha),
    ("repo", .obj [("full_name", .str "gelstable/gel-cli".toList)])]),
  ("head", .obj [("ref", .str "knope/release-v7.x".toList), ("sha", .str sha),
    ("repo", .obj [("full_name", .str "gelstable/gel-cli".toList)])]),
  ("prepared_version", .str version), ("source_snapshot", .str digest)]

def requested (sha : Text) : ReleasePr where
  number := 101
  baseRef := "release/v7.x".toList
  baseSha := baseSha
  headRef := "knope/release-v7.x".toList
  headSha := sha
  repository := "gelstable/gel-cli".toList
  major := 7

theorem requested_same (sha sha' : Text) :
    (requested sha).baseRef = (requested sha').baseRef ∧
      (requested sha).number = (requested sha').number ∧
      (requested sha).baseSha = (requested sha').baseSha := ⟨rfl, rfl, rfl⟩

theorem liveRequested_livePr {sha : Text} (h : sha = sourceSha ∨ sha = headSha) :
    liveRequested (requested sha) (livePr sha) = .ok (requested sha) := by
  rcases h with rfl | rfl <;> rfl

theorem withoutPhase (sha : Text) : (labels (livePr sha) >>= phaseFromLabels) = .ok none := rfl

theorem digest_eq {tree : Tree} (h : tree.source = [readme]) :
    sha256 (Text.utf8 tree.lines.flatten) = digest := by
  have hlines : tree.lines.flatten = readme.record ++ ['\n'] := by
    rw [Tree.lines, h, List.map_singleton, Text.sorted, List.mergeSort_singleton,
      List.flatten_singleton]
  rw [hlines, sha256, if_pos rfl]

theorem commit_source : repo.commit sourceSha = some ⟨[baseSha], sourceTree⟩ := by
  show commit sourceSha = _
  rw [commit, if_pos rfl]

theorem commit_head : repo.commit headSha = some ⟨[sourceSha], headTree⟩ := by
  show commit headSha = _
  rw [commit, if_neg (by decide), if_pos rfl]

theorem blob_recordFile : blob recordFile.objectname = written := by
  unfold blob
  exact if_pos (Eq.refl recordFile.objectname)

theorem gitShow_head : gitShow repo headSha recordPath = some (format.dump record) := by
  have hfind : headTree.entries.find? (fun e => e.path = recordPath) = some recordFile :=
    (List.find?_cons_of_neg (by decide)).trans (List.find?_cons_of_pos (by decide))
  rw [gitShow, commit_head, Option.bind_some, hfind, Option.map_some]
  exact congrArg some (blob_recordFile)

theorem loadBytes_dump : format.loadBytes (format.dump record) = .ok record := by
  show loadBytes written = _
  unfold loadBytes
  exact if_pos (Eq.refl written)

theorem stableAt_source :
    StableAt repo sha256 (requested sourceSha) (livePr sourceSha) (requested sourceSha) version
      digest where
  requested := liveRequested_livePr (Or.inl rfl)
  phase := withoutPhase _
  version := rfl
  snapshot := rfl
  digest := (meaningfulTree_eq commit_source).trans (congrArg Except.ok (digest_eq rfl))

theorem stableAt_head :
    StableAt repo sha256 (requested headSha) (livePr headSha) (requested headSha) version
      digest where
  requested := liveRequested_livePr (Or.inr rfl)
  phase := withoutPhase _
  version := rfl
  snapshot := rfl
  digest := (meaningfulTree_eq commit_head).trans (congrArg Except.ok (digest_eq rfl))

/-- At the source the candidate is still to be staged. -/
theorem resolveCandidate_source :
    resolveCandidate repo format (requested sourceSha) (livePr sourceSha) [] [] =
      .ok (some record.identity) := by
  refine (resolveCandidate_stable (withoutPhase _)).mpr ⟨requested sourceSha, version, digest, [],
    stableAt_source.requested, rfl, rfl, rfl, rfl, ?_⟩
  refine resolveStable_eq_ok.mpr ⟨record.identity, rfl, ?_⟩
  rw [if_neg (by decide +kernel)]
  exact ⟨List.not_mem_nil, rfl⟩

theorem staged : Staged repo format sha256 (requested headSha) (livePr headSha) := by
  refine ⟨requested sourceSha, livePr sourceSha, requested sourceSha, requested headSha, version,
    digest, digest, [], [], record.identity, record, stableAt_source, resolveCandidate_source, rfl,
    loadBytes_dump, ?_, gitShow_head, stableAt_head, requested_same _ _⟩
  refine ⟨_, _, commit_source, commit_head, rfl, rfl, fun h => ?_⟩
  have hnone : sourceTree.entries.find? (fun e => e.path = recordPath) = none :=
    List.find?_cons_of_neg (by decide)
  have hsome : (headTree.entries.find? fun e => e.path = recordPath).isSome := by decide
  rw [h, hnone] at hsome
  cases hsome

/-- A published preview whose record names no phase. -/
def unreadable : Json := .obj [
  ("tag_name", .str "v7.1.0-rc.1".toList), ("draft", .bool false), ("prerelease", .bool true),
  ("candidate", .obj [("phase", .null), ("source_snapshot", .str digest)])]

end Sample

theorem resolveCandidate_fixedPoint_sample :
    resolveCandidate Sample.repo Sample.format (Sample.requested Sample.headSha)
        (Sample.livePr Sample.headSha) [] [] = .ok none ∧
      resolveCandidate Sample.repo Sample.format (Sample.requested Sample.sourceSha)
        (Sample.livePr Sample.sourceSha) [] [] ≠ .ok none := by
  constructor
  · exact (@resolveCandidate_fixedPoint _ _ Sample.sha256).1 _ _ Sample.staged [] [] [] rfl
  · refine (@resolveCandidate_fixedPoint _ _ Sample.sha256).2 _ _ (Sample.withoutPhase _) ?_ [] []
    rintro ⟨head, bytes, record, hhead, hshow, -⟩
    cases Sample.stableAt_source.requested.symm.trans hhead
    cases hshow

/-- Where a published preview cannot be read, the staged head does not resolve. -/
theorem resolveCandidate_fixedPoint_fails :
    ¬ ∀ pr livePr, Staged Sample.repo Sample.format Sample.sha256 pr livePr →
      ∀ tags releases,
        resolveCandidate Sample.repo Sample.format pr livePr tags releases = .ok none := by
  intro h
  obtain ⟨_, _, _, published, _, _, _, _, hpublished, _⟩ :=
    (resolveCandidate_stable (Sample.withoutPhase _)).mp
      (h _ _ Sample.staged [] [Sample.unreadable])
  cases hpublished

end GelCli.Release
